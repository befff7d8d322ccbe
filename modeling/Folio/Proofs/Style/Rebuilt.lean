import Folio.Proofs.Style.Sheet

/-! Fragments from elsewhere, read rule by rule. A fragment of any kind is read to its end in fewer
turns than half its length, and what is made of it is well-formed rules for classes, each of which
was the selector of a rule that was read. -/
namespace Folio.Text

variable {c : Char} {s before after : List Char}

theorem eq_of_splitAt? (h : splitAt? c s = some (before, after)) : s = before ++ c :: after := by
  induction s generalizing before with
  | nil => cases h
  | cons d s ih =>
    unfold splitAt? at h
    split at h
    · next hd =>
      obtain ⟨rfl, rfl⟩ := Prod.mk.inj (Option.some.inj h)
      rw [hd, List.nil_append]
    · obtain ⟨⟨b, a⟩, hs, heq⟩ := Option.map_eq_some_iff.1 h
      obtain ⟨rfl, rfl⟩ := Prod.mk.inj heq
      rw [ih hs, List.cons_append]

/-- The text is cut at the first `c`, so there is no other one before the cut. -/
theorem splitAt?_eq_some_iff :
    splitAt? c s = some (before, after) ↔ s = before ++ c :: after ∧ c ∉ before := by
  refine ⟨fun h => ⟨eq_of_splitAt? h, not_mem_of_splitAt? h⟩, ?_⟩
  rintro ⟨rfl, h⟩
  exact splitAt?_append_cons h

theorem exists_splitAt? (h : c ∈ s) : ∃ before after, splitAt? c s = some (before, after) := by
  obtain ⟨before, after, rfl, hbefore⟩ := List.eq_append_cons_of_mem h
  exact ⟨before, after, splitAt?_append_cons hbefore⟩

end Folio.Text

namespace Folio.Style

open Text

variable {limit : Nat} {s selector body rest : List Char} {parts : List (List Char × List Char)}
  {part : List Char × List Char} {r : Rule}

/-- How a text is read as rules: a selector up to the first opening brace, a body up to the first
closing brace after that, and so on behind it, until no rule is left that is closed. -/
inductive Reads : List Char → List (List Char × List Char) → Prop
  | rest {s : List Char} (h : ∀ selector body, s = selector ++ '\x7b' :: body → '\x7d' ∉ body) :
    Reads s []
  | rule {selector body rest : List Char} {parts : List (List Char × List Char)}
    (hselector : '\x7b' ∉ selector) (hbody : '\x7d' ∉ body) (h : Reads rest parts) :
    Reads (selector ++ '\x7b' :: (body ++ '\x7d' :: rest)) ((selector, body) :: parts)

/-! Reading -/

theorem nextRule?_eq_some (h : nextRule? s = some (selector, body, rest)) :
    s = selector ++ '\x7b' :: (body ++ '\x7d' :: rest) ∧ '\x7b' ∉ selector ∧ '\x7d' ∉ body := by
  unfold nextRule? at h
  split at h
  · cases h
  · next after hopen =>
    split at h
    · cases h
    · next hclose =>
      cases h
      obtain ⟨rfl, hselector⟩ := splitAt?_eq_some_iff.1 hopen
      obtain ⟨rfl, hbody⟩ := splitAt?_eq_some_iff.1 hclose
      exact ⟨rfl, hselector, hbody⟩

/-- Where no rule is found, nothing is closed behind the first opening brace, and so behind none. -/
theorem nextRule?_eq_none (h : nextRule? s = none) (hs : s = selector ++ '\x7b' :: body) :
    '\x7d' ∉ body := by
  intro hclosed
  have hfirst : ∃ before after, splitAt? '\x7b' s = some (before, after) ∧ '\x7d' ∈ after := by
    by_cases hmem : '\x7b' ∈ selector
    · obtain ⟨before, gap, rfl, hbefore⟩ := List.eq_append_cons_of_mem hmem
      refine ⟨before, gap ++ '\x7b' :: body, ?_, ?_⟩
      · rw [hs, List.append_assoc, List.cons_append, splitAt?_append_cons hbefore]
      · exact List.mem_append_right _ (List.mem_cons_of_mem _ hclosed)
    · exact ⟨selector, body, by rw [hs, splitAt?_append_cons hmem], hclosed⟩
  obtain ⟨before, after, hopen, hlater⟩ := hfirst
  obtain ⟨inner, rest, hclose⟩ := exists_splitAt? hlater
  simp [nextRule?, hopen, hclose] at h

theorem reads_rules (s : List Char) : Reads s (rules s) := by
  fun_induction rules s with
  | case1 s h => exact .rest fun _ _ hs => nextRule?_eq_none h hs
  | case2 s selector body rest h ih =>
    obtain ⟨rfl, hselector, hbody⟩ := nextRule?_eq_some h
    exact .rule hselector hbody ih

/-- Every turn uses up two braces. -/
theorem Reads.length_le (h : Reads s parts) : 2 * parts.length ≤ s.length := by
  induction h with
  | rest => exact Nat.zero_le _
  | rule _ _ _ ih =>
    simp only [List.length_append, List.length_cons]
    omega

/-! What is made of the rules -/

/-- A rebuilt rule is for the class that its selector was. -/
theorem trim_of_rebuiltRule? (h : rebuiltRule? limit part = some r) :
    trim part.1 = '.' :: r.className.toList := by
  unfold rebuiltRule? at h
  split at h
  · cases h
  · next name hname =>
    simp only at h
    split at h
    · cases h
    · obtain rfl := Option.some.inj h
      unfold classOf? at hname
      split at hname
      · next word hword =>
        split at hname
        · obtain rfl := Option.some.inj hname
          rw [hword, String.toList_ofList]
        · cases hname
      · cases hname

theorem selectors_sublist (limit : Nat) (parts : List (List Char × List Char)) :
    ((parts.filterMap (rebuiltRule? limit)).map fun r => '.' :: r.className.toList).Sublist
      (parts.map fun part => trim part.1) := by
  induction parts with
  | nil => exact .slnil
  | cons part parts ih =>
    rw [List.filterMap_cons, List.map_cons]
    cases hrule : rebuiltRule? limit part with
    | none => exact ih.cons _
    | some r =>
      rw [List.map_cons, ← trim_of_rebuiltRule? hrule]
      exact ih.cons_cons _

/-- Whatever a fragment holds, it is read to its end, and what is made of it is well-formed rules
for classes. Their selectors are, in order, among those that were read, and neither markup nor an
escape nor a comment comes about in them or between them. -/
theorem cleanFragment_wellFormed (limit : Nat) (fragment : String) :
    ∃ parts rs, Reads fragment.toList parts ∧ 2 * parts.length ≤ fragment.toList.length ∧
      rs = parts.filterMap (rebuiltRule? limit) ∧
      cleanFragment limit fragment = sheetText rs ∧
      (∀ r ∈ rs, r.WellFormed limit) ∧
      (rs.map fun r => '.' :: r.className.toList).Sublist (parts.map fun part => trim part.1) ∧
      (∀ c ∈ (cleanFragment limit fragment).toList, c ≠ '<' ∧ c ≠ '>' ∧ c ≠ '\\') ∧
      ¬ ['/', '*'] <:+: (cleanFragment limit fragment).toList ∧
      ¬ ['*', '/'] <:+: (cleanFragment limit fragment).toList := by
  have hreads := reads_rules fragment.toList
  have htext := cleanFragment_eq_sheetText limit fragment
  have hrules : ∀ r ∈ rebuilt limit fragment, r.WellFormed limit := by
    intro r hr
    exact wellFormed_of_mem_rebuilt hr
  have hmarks := hasCommentMark_eq_false_iff.1 (hasCommentMark_sheetText hrules)
  rw [← htext] at hmarks
  exact ⟨_, _, hreads, hreads.length_le, rfl, htext, hrules, selectors_sublist limit _,
    isBare_cleanFragment limit fragment, hmarks.1, hmarks.2⟩

example : cleanFragment 5 "p\x7b\x7d .w-1 \x7bfontSize: 12 px</style>;;a\x7d*/.b\x7b:x\x7d.c\x7bd" =
    ".w-1\x7bfont-size:12 px;\x7d" := by
  decide +kernel

end Folio.Style
