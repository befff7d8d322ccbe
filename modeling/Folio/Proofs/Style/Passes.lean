import Folio.Proofs.Style.Values

/-! Comment marks, taken out pass by pass. A pass can leave marks that were none before, but it
leaves a shorter text, so the passes end, and a value is cleaned of what the last one leaves. -/
namespace Folio.Style

open Text

variable {s t : List Char} {n limit : Nat}

/-- Passes over a text until no mark is left, each of them made because there was one. -/
inductive Passes : List Char → Nat → List Char → Prop
  | done {s : List Char} (h : hasCommentMark s = false) : Passes s 0 s
  | pass {s t : List Char} {n : Nat} (h : hasCommentMark s = true)
    (hrest : Passes (dropMarks s) n t) : Passes s (n + 1) t

/-- Every pass costs a character at least. -/
theorem Passes.length_le (h : Passes s n t) : n + t.length ≤ s.length := by
  induction h with
  | done => exact Nat.le_of_eq (Nat.zero_add _)
  | pass h _ ih =>
    have hshorter := length_dropMarks_lt h
    omega

theorem exists_passes (s : List Char) : ∃ n, Passes s n (uncomment s) := by
  fun_induction uncomment s with
  | case1 s h ih =>
    obtain ⟨n, hpasses⟩ := ih
    exact ⟨n + 1, .pass h hpasses⟩
  | case2 s h => exact ⟨0, .done (by simpa using h)⟩

theorem not_isForbidden_iff {c : Char} :
    isForbidden c = false ↔
      c ≠ ';' ∧ c ≠ '\x7b' ∧ c ≠ '\x7d' ∧ c ≠ '<' ∧ c ≠ '>' ∧ c ≠ '\\' := by
  simp [isForbidden, and_assoc]

theorem clean_sublist (limit : Nat) (value : String) :
    (clean limit value).toList.Sublist value.toList := by
  rw [clean, toList_via, cleanChars]
  exact (List.take_sublist ..).trans
    ((trim_isInfix _).sublist.trans ((cancelMarks_sublist _).trans List.filter_sublist))

/-- A value without forbidden characters and comment marks is trimmed and cut. -/
theorem IsValue.clean_eq {value : String} (h : IsValue value.toList) (limit : Nat) :
    clean limit value = via (fun s => (trim s).take limit) value := by
  have hallowed : value.toList.filter (!isForbidden ·) = value.toList :=
    List.filter_eq_self.2 fun c hc => by simp [h.allowed c hc]
  rw [clean, via, cleanChars, hallowed, cancelMarks_eq_uncomment, uncomment_eq_self h.uncommented,
    via]

/-- The passes that take comment marks out of a text end, for each leaves a shorter one. What a
value is cleaned to is what they leave of its allowed characters, trimmed and cut: it cannot end a
declaration, comment anything out or start with white space, it is within the limit, and nothing in
it is new. Of a value without forbidden characters and marks nothing else is taken. -/
theorem clean_inert (limit : Nat) :
    (∀ s, hasCommentMark s = true → (dropMarks s).length < s.length) ∧
    (∀ s, ∃ n t, Passes s n t ∧ n + t.length ≤ s.length) ∧
    ∀ value : String,
      (∃ n t, Passes (value.toList.filter (!isForbidden ·)) n t ∧
        (clean limit value).toList = (trim t).take limit) ∧
      (∀ c ∈ (clean limit value).toList,
        c ≠ ';' ∧ c ≠ '\x7b' ∧ c ≠ '\x7d' ∧ c ≠ '<' ∧ c ≠ '>' ∧ c ≠ '\\') ∧
      ¬ ['/', '*'] <:+: (clean limit value).toList ∧
      ¬ ['*', '/'] <:+: (clean limit value).toList ∧
      (∀ c ∈ (clean limit value).toList.head?, isBlank c = false) ∧
      (clean limit value).toList.length ≤ limit ∧
      (clean limit value).toList.Sublist value.toList ∧
      ((∀ c ∈ value.toList, isForbidden c = false) → ¬ ['/', '*'] <:+: value.toList →
        ¬ ['*', '/'] <:+: value.toList →
          clean limit value = via (fun s => (trim s).take limit) value) := by
  refine ⟨fun s h => length_dropMarks_lt h, fun s => ?_, fun value => ?_⟩
  · obtain ⟨n, hpasses⟩ := exists_passes s
    exact ⟨n, uncomment s, hpasses, hpasses.length_le⟩
  · have hchars : (clean limit value).toList = cleanChars limit value.toList := toList_via _ _
    have hvalue : IsValue (clean limit value).toList := hchars ▸ isValue_cleanChars limit _
    have hmarks := hasCommentMark_eq_false_iff.1 hvalue.uncommented
    obtain ⟨n, hpasses⟩ := exists_passes (value.toList.filter (!isForbidden ·))
    refine ⟨⟨n, _, hpasses, ?_⟩, fun c hc => not_isForbidden_iff.1 (hvalue.allowed c hc),
      hmarks.1, hmarks.2, ?_, ?_, clean_sublist limit value, fun hallowed hopen hclose => ?_⟩
    · rw [hchars, cleanChars, cancelMarks_eq_uncomment]
    · rw [hchars]
      exact fun c hc => isBlank_of_mem_head?_cleanChars hc
    · rw [hchars]
      exact length_cleanChars_le limit _
    · exact IsValue.clean_eq ⟨hallowed, hasCommentMark_eq_false_iff.2 ⟨hopen, hclose⟩⟩ limit

/-- A text with marks inside marks, which takes more than one pass, and a value that is trimmed and
cut only. -/
theorem clean_inert_nested :
    hasCommentMark "///***c".toList = true ∧
      (dropMarks "///***c".toList).length < "///***c".toList.length ∧
      hasCommentMark (dropMarks "///***c".toList) = true ∧
      (clean 4 "//;/**\x7d*c d ef").toList.Sublist "//;/**\x7d*c d ef".toList ∧
      (∀ c ∈ " 10 px".toList, isForbidden c = false) ∧ ¬ ['/', '*'] <:+: " 10 px".toList ∧
      ¬ ['*', '/'] <:+: " 10 px".toList ∧ clean 4 " 10 px" = "10 p" := by
  obtain ⟨hpass, -, hvalues⟩ := clean_inert 4
  obtain ⟨-, -, -, -, -, -, hsublist, -⟩ := hvalues "//;/**\x7d*c d ef"
  obtain ⟨-, -, -, -, -, -, -, hplain⟩ := hvalues " 10 px"
  have hmarked : hasCommentMark "///***c".toList = true := by decide
  have hallowed : ∀ c ∈ " 10 px".toList, isForbidden c = false := by simp [isForbidden]
  have hmarkless : hasCommentMark " 10 px".toList = false := by decide
  obtain ⟨hopen, hclose⟩ := hasCommentMark_eq_false_iff.1 hmarkless
  refine ⟨hmarked, hpass _ hmarked, by decide, hsublist, hallowed, hopen, hclose, ?_⟩
  rw [hplain hallowed hopen hclose]
  decide

end Folio.Style
