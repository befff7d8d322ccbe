import Folio.Text.Blank

/-! The words of a text. White space parts a text into two, and the words of the whole are those of
the first part and then those of the second. -/
namespace Folio.Text

variable {c : Char} {s t : List Char}

theorem wordsFrom_append_cons (hc : isBlank c = true) (word s t : List Char) :
    wordsFrom word (s ++ c :: t) = wordsFrom word s ++ words t := by
  induction s generalizing word with
  | nil =>
    simp only [List.nil_append, wordsFrom, hc, if_true, words]
    split <;> rfl
  | cons d s ih =>
    simp only [List.cons_append, wordsFrom]
    split
    · rw [ih]
      split <;> rfl
    · exact ih _

/-- White space parts words. -/
theorem words_append_cons (hc : isBlank c = true) (s t : List Char) :
    words (s ++ c :: t) = words s ++ words t :=
  wordsFrom_append_cons hc [] s t

/-- White space in front does not matter. -/
theorem words_append_of_blank (h : ∀ c ∈ s, isBlank c = true) (t : List Char) :
    words (s ++ t) = words t := by
  induction s with
  | nil => rfl
  | cons c s ih =>
    rw [List.forall_mem_cons] at h
    rw [List.cons_append, ← List.nil_append (c :: (s ++ t)), words_append_cons h.1, ih h.2]
    rfl

theorem wordsFrom_of_visible (h : ∀ c ∈ s, isBlank c = false) (word : List Char) :
    wordsFrom word s = wordsFrom (s.reverse ++ word) [] := by
  induction s generalizing word with
  | nil => rfl
  | cons c s ih =>
    rw [List.forall_mem_cons] at h
    have hstep : wordsFrom word (c :: s) = wordsFrom (c :: word) s := by
      rw [wordsFrom, h.1]
      rfl
    rw [hstep, ih h.2, List.reverse_cons, List.append_assoc, List.singleton_append]

/-- A text of visible characters is one word. -/
theorem words_of_visible (hsome : s ≠ []) (h : ∀ c ∈ s, isBlank c = false) : words s = [s] := by
  rw [words, wordsFrom_of_visible h, List.append_nil, wordsFrom, if_neg (by simpa using hsome),
    List.reverse_reverse]

end Folio.Text
