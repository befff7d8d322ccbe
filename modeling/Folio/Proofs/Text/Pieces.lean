import Folio.Text.Search

/-! Cuts of a text at one of its characters, told from where that character stands. -/
namespace Folio.Text

variable {c : Char} {before s piece : List Char} {pieces : List (List Char)}

@[simp] theorem splitOn_nil : splitOn c [] = [[]] := rfl

@[simp] theorem splitOn_cons_self : splitOn c (c :: s) = [] :: splitOn c s := by
  simp [splitOn]

/-- What stands before the first cut only makes the first piece longer. -/
theorem splitOn_append (h : c ∉ before) (hs : splitOn c s = piece :: pieces) :
    splitOn c (before ++ s) = (before ++ piece) :: pieces := by
  induction before with
  | nil => exact hs
  | cons d before ih =>
    have hd : d ≠ c := by
      rintro rfl
      exact h (List.mem_cons_self ..)
    have hrest : splitOn c (before ++ s) = (before ++ piece) :: pieces :=
      ih (fun hc => h (List.mem_cons_of_mem _ hc))
    unfold splitOn at hrest ⊢
    rw [List.cons_append, List.foldr_cons, hrest, if_neg hd]
    rfl

theorem splitOn_append_cons (h : c ∉ before) :
    splitOn c (before ++ c :: s) = before :: splitOn c s := by
  simpa using splitOn_append h splitOn_cons_self

theorem splitOn_of_not_mem (h : c ∉ s) : splitOn c s = [s] := by
  simpa using splitOn_append h (splitOn_nil (c := c))

theorem splitAt?_append_cons (h : c ∉ before) :
    splitAt? c (before ++ c :: s) = some (before, s) := by
  induction before with
  | nil => simp [splitAt?]
  | cons d before ih =>
    have hd : d ≠ c := by
      rintro rfl
      exact h (List.mem_cons_self ..)
    simp [splitAt?, hd, ih (fun hc => h (List.mem_cons_of_mem _ hc))]

end Folio.Text
