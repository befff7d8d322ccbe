/-!
Finding, cutting and replacing inside character lists. Main statement: removing a pattern that
occurs makes the text shorter, so repeated removal ends.
-/
namespace Folio.Text

variable {p s : List Char} {c : Char}

/-- What follows `p` at the start of a text, if the text starts with `p`. -/
def after? : List Char → List Char → Option (List Char)
  | [], s => some s
  | _ :: _, [] => none
  | p :: ps, c :: s => if p = c then after? ps s else none

/-- What follows a pattern of small letters at the start of a text, whatever the case of the text.
-/
def afterAnyCase? : List Char → List Char → Option (List Char)
  | [], s => some s
  | _ :: _, [] => none
  | p :: ps, c :: s => if p = c.toLower then afterAnyCase? ps s else none

/-- Whether `p` stands somewhere in the text. -/
def occurs (p : List Char) : List Char → Bool
  | [] => p.isEmpty
  | c :: s => p.isPrefixOf (c :: s) || occurs p s

/-- Left-to-right replacement: `skip` characters still belong to the last match, and `done` is the
result so far, reversed. -/
def replaceFrom (old new : List Char) (done : List Char) : Nat → List Char → List Char
  | _, [] => done.reverse
  | skip + 1, _ :: s => replaceFrom old new done skip s
  | 0, c :: s =>
    if old.isPrefixOf (c :: s) then
      replaceFrom old new (new.reverseAux done) (old.length - 1) s
    else replaceFrom old new (c :: done) 0 s

/-- Replaces every occurrence of `old`, left to right and without overlap. -/
def replaceAll (old new s : List Char) : List Char := replaceFrom old new [] 0 s

/-- The text before and after the first `c`. -/
def splitAt? (c : Char) : List Char → Option (List Char × List Char)
  | [] => none
  | d :: s =>
    if d = c then some ([], s) else (splitAt? c s).map fun (before, after) => (d :: before, after)

/-- The pieces between the occurrences of `c`; there is one more piece than occurrences. -/
def splitOn (c : Char) (s : List Char) : List (List Char) :=
  s.foldr (fun d pieces =>
    if d = c then [] :: pieces
    else match pieces with
      | [] => [[d]]
      | piece :: rest => (d :: piece) :: rest) [[]]

/-- The pieces that end after each `c`; the last piece lacks one, and is left out when empty. -/
def splitAfter (c : Char) (s : List Char) : List (List Char) :=
  s.foldr (fun d pieces =>
    if d = c then [d] :: pieces
    else match pieces with
      | [] => [[d]]
      | piece :: rest =>
        (d :: piece) :: rest) []

theorem replaceFrom_eq (old new done : List Char) (skip : Nat) (s : List Char) :
    replaceFrom old new done skip s = done.reverse ++ replaceFrom old new [] skip s := by
  induction s generalizing done skip with
  | nil => cases skip <;> simp [replaceFrom]
  | cons c s ih =>
    cases skip with
    | succ skip => simpa [replaceFrom] using ih done skip
    | zero =>
      simp only [replaceFrom]
      split
      · rw [ih (new.reverseAux done), ih (new.reverseAux [])]
        simp [List.reverseAux_eq]
      · rw [ih (c :: done), ih [c]]
        simp

/-- A cut uses up the character it is made at. -/
theorem length_after_splitAt? {before after : List Char}
    (h : splitAt? c s = some (before, after)) : after.length < s.length := by
  induction s generalizing before with
  | nil => simp [splitAt?] at h
  | cons d s ih =>
    simp only [splitAt?] at h
    split at h
    · simp only [Option.some.injEq, Prod.mk.injEq] at h
      simp [h.2]
    · obtain ⟨⟨b, a⟩, hs, he⟩ := Option.map_eq_some_iff.1 h
      simp only [Prod.mk.injEq] at he
      obtain ⟨-, rfl⟩ := he
      have := ih hs
      simp only [List.length_cons]
      omega

/-- A text without the pattern is left as it is. -/
theorem replaceFrom_of_not_occurs (new : List Char) (h : occurs p s = false) :
    replaceFrom p new [] 0 s = s := by
  induction s with
  | nil => rfl
  | cons c s ih =>
    simp only [occurs, Bool.or_eq_false_iff] at h
    simp only [replaceFrom, h.1, Bool.false_eq_true, if_false]
    rw [replaceFrom_eq, ih h.2]
    rfl

theorem length_remove_le (skip : Nat) (s : List Char) :
    (replaceFrom p [] [] skip s).length ≤ s.length := by
  induction s generalizing skip with
  | nil => cases skip <;> simp [replaceFrom]
  | cons c s ih =>
    cases skip with
    | succ skip => exact Nat.le_succ_of_le (ih skip)
    | zero =>
      simp only [replaceFrom]
      split
      · exact Nat.le_succ_of_le (ih _)
      · rw [replaceFrom_eq]
        simpa using ih 0

/-- Removing a non-empty pattern that occurs shortens the text. -/
theorem length_remove_lt (hp : p ≠ []) (h : occurs p s = true) :
    (replaceAll p [] s).length < s.length := by
  unfold replaceAll
  induction s with
  | nil => simp [occurs, hp] at h
  | cons c s ih =>
    simp only [replaceFrom]
    split
    · exact Nat.lt_succ_of_le (length_remove_le _ _)
    · next hc =>
      have hs : occurs p s = true := by simpa [occurs, hc] using h
      rw [replaceFrom_eq]
      simpa using ih hs

end Folio.Text
