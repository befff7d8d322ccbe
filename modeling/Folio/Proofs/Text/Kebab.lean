import Folio.Text.Kebab

/-! The characters of kebab names, of whatever text they were made. -/
namespace Folio.Text

/-- Small letters, digits, dashes and colons. -/
def isKebabChar (c : Char) : Bool := c.isLower || c.isDigit || c == '-' || c == ':'

theorem toNat_of_isLower {c : Char} (h : c.isLower = true) : 97 ≤ c.toNat ∧ c.toNat ≤ 122 := by
  have hrange := Bool.and_eq_true_iff.1 h
  exact ⟨UInt32.le_iff_toNat_le.1 (of_decide_eq_true hrange.1),
    UInt32.le_iff_toNat_le.1 (of_decide_eq_true hrange.2)⟩

theorem toNat_of_isDigit {c : Char} (h : c.isDigit = true) : 48 ≤ c.toNat ∧ c.toNat ≤ 57 := by
  have hrange := Bool.and_eq_true_iff.1 h
  exact ⟨UInt32.le_iff_toNat_le.1 (of_decide_eq_true hrange.1),
    UInt32.le_iff_toNat_le.1 (of_decide_eq_true hrange.2)⟩

theorem toNat_of_isUpper {c : Char} (h : c.isUpper = true) : 65 ≤ c.toNat ∧ c.toNat ≤ 90 := by
  have hrange : c.val ≥ 'A'.val ∧ c.val ≤ 'Z'.val := of_decide_eq_true h
  exact ⟨UInt32.le_iff_toNat_le.1 hrange.1, UInt32.le_iff_toNat_le.1 hrange.2⟩

theorem isLower_toLower {c : Char} (h : c.isUpper = true) : c.toLower.isLower = true := by
  have hrange : c.val ≥ 'A'.val ∧ c.val ≤ 'Z'.val := of_decide_eq_true h
  have hval : c.toLower.val = c.val + ('a'.val - 'A'.val) := congrArg Char.val (dif_pos hrange)
  obtain ⟨hlow, hhigh⟩ := hrange
  have hA : 'A'.val.toNat = 65 := rfl
  have hZ : 'Z'.val.toNat = 90 := rfl
  have ha : 'a'.val.toNat = 97 := rfl
  have hz : 'z'.val.toNat = 122 := rfl
  have hd : ('a'.val - 'A'.val).toNat = 32 := rfl
  have hlower : c.toLower.val ≥ 'a'.val ∧ c.toLower.val ≤ 'z'.val := by
    rw [hval]
    simp only [ge_iff_le, UInt32.le_iff_toNat_le, UInt32.toNat_add] at hlow hhigh ⊢
    omega
  exact Bool.and_eq_true_iff.2 ⟨decide_eq_true hlower.1, decide_eq_true hlower.2⟩

/-- Holds of names whose characters are all of the kind that kebab names have. -/
def IsKebab (name : List Char) : Prop := ∀ c ∈ name, isKebabChar c = true

instance (name : List Char) : Decidable (IsKebab name) :=
  decidable_of_iff (name.all isKebabChar = true) List.all_eq_true

theorem IsKebab.not_mem {name : List Char} (h : IsKebab name) {d : Char}
    (hd : isKebabChar d = false) : d ∉ name := by
  intro hmem
  simp [h d hmem] at hd

theorem IsKebab.reverse {name : List Char} (h : IsKebab name) : IsKebab name.reverse := by
  intro c hc
  exact h c (List.mem_reverse.1 hc)

theorem isKebab_joinDash {out : List Char} (h : IsKebab out) : IsKebab (joinDash out) := by
  unfold joinDash
  split
  · exact h
  · exact h
  · exact List.forall_mem_cons.2 ⟨rfl, h⟩

theorem isKebab_kebabStep (previous : Option Char) {out : List Char} (c : Char)
    (h : IsKebab out) : IsKebab (kebabStep previous out c) := by
  unfold kebabStep
  split
  · next hc =>
    have hlower : isKebabChar c.toLower = true := by simp [isKebabChar, isLower_toLower hc]
    split
    · exact List.forall_mem_cons.2 ⟨hlower, isKebab_joinDash h⟩
    · exact List.forall_mem_cons.2 ⟨hlower, h⟩
  · split
    · next hc =>
      have hkept : isKebabChar c = true := by
        simp only [Bool.or_eq_true, beq_iff_eq] at hc
        rcases hc with (hc | hc) | hc <;> simp [isKebabChar, hc]
      exact List.forall_mem_cons.2 ⟨hkept, h⟩
    · split
      · exact isKebab_joinDash h
      · exact h

theorem isKebab_kebabFrom (previous : Option Char) {out : List Char} (name : List Char)
    (h : IsKebab out) : IsKebab (kebabFrom previous out name) := by
  induction name generalizing previous out with
  | nil => exact h
  | cons c name ih => exact ih (some c) (isKebab_kebabStep previous c h)

theorem isKebab_dropLastDash {out : List Char} (h : IsKebab out) : IsKebab (dropLastDash out) := by
  unfold dropLastDash
  split
  · exact h
  · exact (List.forall_mem_cons.1 h).2
  · exact h

theorem isKebab_kebabChars (name : List Char) : IsKebab (kebabChars name) := by
  unfold kebabChars
  split
  · exact (isKebab_dropLastDash (isKebab_kebabFrom none _ (by decide))).reverse
  · exact (isKebab_dropLastDash (isKebab_kebabFrom none _ (by decide))).reverse

/-- Whatever a name is made of, its kebab form is a kebab name. -/
theorem isKebab_kebab (name : String) : IsKebab (kebab name).toList := by
  rw [kebab, String.toList_ofList]
  exact isKebab_kebabChars name.toList

end Folio.Text
