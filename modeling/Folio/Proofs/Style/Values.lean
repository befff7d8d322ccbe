import Folio.Proofs.Style.Bare
import Folio.Proofs.Text.Occurrence
import Folio.Proofs.Text.Trim

/-! Cleaned values hold nothing that could end a declaration and no mark of a comment. One that was
not cut to its limit is left alone when it is cleaned again. -/
namespace Folio.Style

open Text

variable {s t : List Char} {limit : Nat} {c : Char}

/-! Comment marks -/

theorem hasCommentMark_eq_false_iff :
    hasCommentMark s = false ↔ ¬ openMark <:+: s ∧ ¬ closeMark <:+: s := by
  rw [hasCommentMark, Bool.or_eq_false_iff, ← Bool.not_eq_true, ← Bool.not_eq_true,
    occurs_iff_infix, occurs_iff_infix]

theorem hasCommentMark_of_infix (h : s <:+: t) (ht : hasCommentMark t = false) :
    hasCommentMark s = false := by
  rw [hasCommentMark_eq_false_iff] at ht ⊢
  exact ⟨fun hs => ht.1 (hs.trans h), fun hs => ht.2 (hs.trans h)⟩

theorem hasCommentMark_of_not_mem (hslash : '/' ∉ s) : hasCommentMark s = false := by
  rw [hasCommentMark_eq_false_iff]
  exact ⟨fun h => hslash (h.subset (by simp [openMark])),
    fun h => hslash (h.subset (by simp [closeMark]))⟩

/-- A mark needs both of its characters, so none forms across a character of another kind. -/
theorem hasCommentMark_append_cons (hs : hasCommentMark s = false)
    (ht : hasCommentMark t = false) (hslash : c ≠ '/') (hstar : c ≠ '*') :
    hasCommentMark (s ++ c :: t) = false := by
  rw [hasCommentMark_eq_false_iff] at hs ht ⊢
  have hopen : c ∉ openMark := by simp [openMark, hslash, hstar]
  have hclose : c ∉ closeMark := by simp [closeMark, hslash, hstar]
  rw [infix_append_cons_iff hopen (by decide), infix_append_cons_iff hclose (by decide), not_or,
    not_or]
  exact ⟨⟨hs.1, ht.1⟩, hs.2, ht.2⟩

theorem hasCommentMark_uncomment (s : List Char) : hasCommentMark (uncomment s) = false := by
  fun_induction uncomment s with
  | case1 s h ih => exact ih
  | case2 s h => simpa using h

theorem uncomment_eq_self (h : hasCommentMark s = false) : uncomment s = s := by
  rw [uncomment, h, if_neg Bool.false_ne_true]

/-! Values -/

/-- Holds of texts that can be the value of a declaration. -/
structure IsValue (s : List Char) : Prop where
  allowed : ∀ c ∈ s, isForbidden c = false
  uncommented : hasCommentMark s = false

theorem IsValue.of_isInfix (ht : IsValue t) (h : s <:+: t) : IsValue s :=
  ⟨fun c hc => ht.allowed c (h.subset hc), hasCommentMark_of_infix h ht.uncommented⟩

/-- What a value comes to before it is cut to its limit. -/
def cleanedChars (s : List Char) : List Char := trim (cancelMarks (s.filter (!isForbidden ·)))

theorem isValue_cleanedChars (s : List Char) : IsValue (cleanedChars s) := by
  refine IsValue.of_isInfix ⟨fun c hc => ?_, ?_⟩ (trim_isInfix _)
  · have hfiltered := (cancelMarks_sublist _).subset hc
    simpa using (List.mem_filter.1 hfiltered).2
  · rw [cancelMarks_eq_uncomment]
    exact hasCommentMark_uncomment _

theorem isValue_cleanChars (limit : Nat) (s : List Char) : IsValue (cleanChars limit s) :=
  (isValue_cleanedChars s).of_isInfix (List.take_prefix ..).isInfix

theorem length_cleanChars_le (limit : Nat) (s : List Char) :
    (cleanChars limit s).length ≤ limit := List.length_take_le ..

/-- A value that was not cut is trimmed. -/
theorem isTrimmed_cleanChars (h : (cleanedChars s).length ≤ limit) :
    IsTrimmed (cleanChars limit s) := by
  have hwhole : cleanChars limit s = cleanedChars s := List.take_of_length_le h
  rw [hwhole]
  exact isTrimmed_trim _

/-- A cut leaves the start of a value as it is. -/
theorem isBlank_of_mem_head?_cleanChars (h : c ∈ (cleanChars limit s).head?) :
    isBlank c = false := by
  have htrimmed : IsTrimmed (cleanedChars s) := isTrimmed_trim _
  have hcut : cleanChars limit s <+: cleanedChars s := List.take_prefix ..
  obtain ⟨rest, hrest⟩ := hcut
  obtain ⟨tail, htail⟩ := List.head?_eq_some_iff.1 h
  refine htrimmed.first c ?_
  rw [← hrest, htail]
  rfl

/-- Of a value that starts visibly, cleaning only takes the white space at the end. -/
theorem IsValue.cleanChars_eq (hs : IsValue s) (hfirst : ∀ c ∈ s.head?, isBlank c = false)
    (hshort : s.length ≤ limit) : cleanChars limit s = trimEnd s := by
  have hallowed : s.filter (!isForbidden ·) = s :=
    List.filter_eq_self.2 fun c hc => by simp [hs.allowed c hc]
  have hshorter : (trimEnd s).length ≤ limit :=
    Nat.le_trans (trimEnd_isPrefix s).length_le hshort
  rw [cleanChars, hallowed, cancelMarks_eq_uncomment, uncomment_eq_self hs.uncommented, trim,
    dropWhile_isBlank_eq_self hfirst, List.take_of_length_le hshorter]

theorem cleanChars_cleanChars (limit : Nat) (s : List Char) :
    cleanChars limit (cleanChars limit s) = trimEnd (cleanChars limit s) :=
  (isValue_cleanChars limit s).cleanChars_eq (fun _ hc => isBlank_of_mem_head?_cleanChars hc)
    (length_cleanChars_le limit s)

end Folio.Style
