import Folio.Text.Blank
import Folio.Text.Search

/-!
Style values from untrusted text. A cleaned value cannot leave its declaration: it holds no
delimiter of rules, no angle bracket, no backslash and no mark of a comment. Main statement: taking
comment marks out in one pass gives what removing all of them again and again ends with.
-/
namespace Folio.Style

open Text

/-- Characters that could end a declaration, a rule or a style element, or start an escape. -/
def isForbidden (c : Char) : Bool :=
  c == ';' || c == '\x7b' || c == '\x7d' || c == '<' || c == '>' || c == '\\'

def openMark : List Char := ['/', '*']

def closeMark : List Char := ['*', '/']

/-- Whether a comment is opened or closed somewhere. -/
def hasCommentMark (s : List Char) : Bool := occurs openMark s || occurs closeMark s

/-- One removal of all comment marks. What it leaves may form new ones. -/
def dropMarks (s : List Char) : List Char := replaceAll closeMark [] (replaceAll openMark [] s)

theorem length_dropMarks_lt {s : List Char} (h : hasCommentMark s = true) :
    (dropMarks s).length < s.length := by
  have hle : (replaceAll openMark [] s).length ≤ s.length := length_remove_le _ _
  have hle' := length_remove_le (p := closeMark) 0 (replaceAll openMark [] s)
  by_cases ho : occurs openMark s = true
  · have := length_remove_lt (p := openMark) (by simp [openMark]) ho
    simp only [dropMarks, replaceAll] at *
    omega
  · by_cases hc : occurs closeMark (replaceAll openMark [] s) = true
    · have := length_remove_lt (p := closeMark) (by simp [closeMark]) hc
      simp only [dropMarks] at *
      omega
    · have hs : occurs closeMark s = true := by simpa [hasCommentMark, ho] using h
      rw [replaceAll, replaceFrom_of_not_occurs _ (by simpa using ho)] at hc
      exact absurd hs hc

/-- Removes comment marks until none is left. -/
def uncomment (s : List Char) : List Char :=
  if hasCommentMark s then uncomment (dropMarks s) else s
termination_by s.length
decreasing_by exact length_dropMarks_lt (by assumption)

/-- Whether two characters make up a comment mark. -/
def isMark (c d : Char) : Bool := (c == '/' && d == '*') || (c == '*' && d == '/')

/-- Adds a character to a reversed text, or takes the last one away if the two make up a mark. -/
def push (done : List Char) (c : Char) : List Char :=
  match done with
  | [] => [c]
  | d :: rest => if isMark d c then rest else c :: d :: rest

/-- Takes all comment marks out, also those that others leave behind, in one pass. -/
def cancelMarks (s : List Char) : List Char := (s.foldl push []).reverse

/-- Whether two neighbours make up a mark. -/
def isMarked : List Char → Bool
  | c :: d :: s => isMark c d || isMarked (d :: s)
  | _ => false

theorem isMark_comm (c d : Char) : isMark c d = isMark d c := by
  simp only [isMark, Bool.and_comm, Bool.or_comm]

theorem isMark_eq_true {c d : Char} :
    isMark c d = true ↔ (c = '/' ∧ d = '*') ∨ (c = '*' ∧ d = '/') := by
  simp [isMark]

theorem hasCommentMark_eq_isMarked (s : List Char) : hasCommentMark s = isMarked s := by
  induction s with
  | nil => rfl
  | cons c s ih =>
    cases s with
    | nil => simp [hasCommentMark, occurs, openMark, closeMark, isMarked, List.isPrefixOf]
    | cons d s =>
      rw [isMarked, ← ih, Bool.eq_iff_iff]
      simp [hasCommentMark, occurs, openMark, closeMark, isMark]
      grind

theorem isMarked_push {done : List Char} (h : isMarked done = false) (c : Char) :
    isMarked (push done c) = false := by
  cases done with
  | nil => rfl
  | cons d rest =>
    simp only [push]
    split
    · cases rest with
      | nil => rfl
      | cons e rest => simp_all [isMarked]
    · next hc => simp_all [isMarked, isMark_comm c d]

/-- A mark leaves no trace. -/
theorem push_push_of_isMark {done : List Char} (h : isMarked done = false) {c d : Char}
    (hm : isMark c d = true) : push (push done c) d = done := by
  cases done with
  | nil => simp [push, hm]
  | cons e rest =>
    by_cases hc : isMark e c = true
    · have hde : d = e := by
        rw [isMark_eq_true] at hm hc
        grind
      subst hde
      cases rest with
      | nil => simp [push, hc]
      | cons f rest =>
        simp only [isMarked, Bool.or_eq_false_iff] at h
        simp [push, hc, isMark_comm f d, h.1]
    · simp [push, hc, hm]

theorem foldl_push_replaceAll {c d : Char} (hm : isMark c d = true) (s : List Char)
    {done : List Char} (h : isMarked done = false) :
    (replaceAll [c, d] [] s).foldl push done = s.foldl push done := by
  unfold replaceAll
  match s with
  | [] => rfl
  | [e] => simp [replaceFrom, List.isPrefixOf]
  | e :: f :: s =>
    by_cases hp : c = e ∧ d = f
    · obtain ⟨rfl, rfl⟩ := hp
      have := foldl_push_replaceAll hm s h
      simp only [replaceAll] at this
      simp [replaceFrom, List.isPrefixOf, push_push_of_isMark h hm, this]
    · have := foldl_push_replaceAll hm (f :: s) (isMarked_push h e)
      simp only [replaceAll] at this
      rw [replaceFrom]
      simp only [List.isPrefixOf, Bool.and_true, Bool.and_eq_true, beq_iff_eq, hp, if_false]
      rw [replaceFrom_eq]
      simpa using this

theorem cancelMarks_dropMarks (s : List Char) : cancelMarks (dropMarks s) = cancelMarks s := by
  have hc : isMark '*' '/' = true := rfl
  have ho : isMark '/' '*' = true := rfl
  simp only [cancelMarks, dropMarks, closeMark, openMark]
  rw [foldl_push_replaceAll hc _ rfl, foldl_push_replaceAll ho _ rfl]

theorem isMark_of_isMarked_append {t s : List Char} {c d : Char}
    (h : isMarked (t ++ c :: d :: s) = false) : isMark c d = false := by
  induction t with
  | nil => simp_all [isMarked]
  | cons e t ih =>
    cases t with
    | nil => simp_all [isMarked]
    | cons f t => simp_all [isMarked]

theorem foldl_push_of_unmarked {s done : List Char} (h : isMarked (done.reverse ++ s) = false) :
    s.foldl push done = s.reverse ++ done := by
  induction s generalizing done with
  | nil => rfl
  | cons c s ih =>
    have hp : push done c = c :: done := by
      cases done with
      | nil => rfl
      | cons d rest =>
        have : isMark d c = false := by
          have hsplit : (d :: rest).reverse ++ c :: s = rest.reverse ++ d :: c :: s := by simp
          rw [hsplit] at h
          exact isMark_of_isMarked_append h
        simp [push, this]
    rw [List.foldl_cons, hp, ih (by simpa using h)]
    simp

/-- One pass does what repeated removal does. -/
theorem cancelMarks_eq_uncomment (s : List Char) : cancelMarks s = uncomment s := by
  fun_induction uncomment s with
  | case1 s h ih => rw [← ih, cancelMarks_dropMarks]
  | case2 s h =>
    have hs : isMarked s = false := by simpa [hasCommentMark_eq_isMarked] using h
    have := @foldl_push_of_unmarked s [] (by simpa using hs)
    simp [cancelMarks, this]

/-- A value as it may stand in a declaration, of at most `limit` characters. -/
def cleanChars (limit : Nat) (s : List Char) : List Char :=
  (trim (cancelMarks (s.filter (!isForbidden ·)))).take limit

def clean (limit : Nat) (s : String) : String := via (cleanChars limit) s

/-- The limit for values that no settings apply to. -/
def defaultLimit : Nat := 200

end Folio.Style
