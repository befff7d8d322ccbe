import Folio.Proofs.Json.Lexing
import Mathlib.Data.List.Basic
import Mathlib.Data.List.TakeWhile

/-! Whole numbers of sixty-four bits read back, whatever they are. -/
namespace Folio.Json

open Decimal

/-! Digits of a number -/

theorem isDigit_of_mem_digitsOf {n : Nat} {c : Char} (h : c ∈ digitsOf n) : c.isDigit = true :=
  Nat.isDigit_of_mem_toDigits (by decide) (by decide) h

theorem foldl_digitsOf (n : Nat) : (digitsOf n).foldl (addDigit 10) 0 = n := by
  have hsame : (digitsOf n).foldl (addDigit 10) 0 = Nat.ofDigitChars 10 (digitsOf n) 0 := by
    refine List.foldl_ext _ _ 0 fun m c hc => ?_
    rw [addDigit, digitValue, if_pos (isDigit_of_mem_digitsOf hc), Nat.mul_comm]
  rw [hsame]
  exact Nat.ofDigitChars_ten_toDigits

/-- Only the number zero is written with a zero in front. -/
theorem digitsOf_first {n : Nat} (h : 0 < n) : ∃ c s, digitsOf n = c :: s ∧ c ≠ '0' := by
  induction n using Nat.strongRecOn with
  | ind n ih =>
    by_cases hn : n < 10
    · have hfirst : ∀ d < 10, 0 < d → Nat.digitChar d ≠ '0' := by decide
      exact ⟨Nat.digitChar n, [], Nat.toDigits_of_lt_base hn, hfirst n hn h⟩
    · obtain ⟨c, s, hdigits, hc⟩ := ih (n / 10) (by omega) (by omega)
      have hlast : digitsOf n = digitsOf (n / 10) ++ [Nat.digitChar (n % 10)] :=
        Nat.toDigits_of_base_le (by decide) (Nat.le_of_not_lt hn)
      exact ⟨c, s ++ [Nat.digitChar (n % 10)], by rw [hlast, hdigits]; rfl, hc⟩

/-! Reading them -/

theorem takeSignificand_of_le {m : Nat} {s : List Char}
    (h : s.foldl (addDigit 10) m ≤ significandLimit) :
    takeSignificand m s = (s.foldl (addDigit 10) m, []) := by
  have hgrows : ∀ (s : List Char) (m : Nat), m ≤ s.foldl (addDigit 10) m := by
    intro s
    induction s with
    | nil => exact Nat.le_refl
    | cons c s ih =>
      intro m
      have hstep : m ≤ addDigit 10 m c := by
        unfold addDigit
        omega
      exact Nat.le_trans hstep (ih _)
  induction s generalizing m with
  | nil => rfl
  | cons c s ih =>
    rw [List.foldl_cons] at h ⊢
    have hstep : ¬ significandLimit < addDigit 10 m c :=
      Nat.not_lt.2 (Nat.le_trans (hgrows s _) h)
    rw [takeSignificand, if_neg hstep, ih h]

theorem Literal.read?_digitsOf (negative : Bool) (n : Nat) :
    Literal.read? ((if negative then ['-'] else []) ++ digitsOf n) =
      some ⟨negative, digitsOf n, none, none⟩ := by
  have htake : takeDigits (digitsOf n) = (digitsOf n, []) := by
    rw [takeDigits, List.takeWhile_eq_self_iff.2 fun c hc => isDigit_of_mem_digitsOf hc,
      List.dropWhile_eq_nil_iff.2 fun c hc => isDigit_of_mem_digitsOf hc]
  have hzero : ∀ c s, digitsOf n ≠ '0' :: c :: s := by
    intro c s heq
    rcases Nat.eq_zero_or_pos n with rfl | hpos
    · cases heq
    · obtain ⟨first, rest, hdigits, hne⟩ := digitsOf_first hpos
      rw [hdigits] at heq
      cases heq
      exact hne rfl
  have hsome : digitsOf n ≠ [] := Nat.toDigits_ne_nil
  have hdash : ∀ s, digitsOf n ≠ '-' :: s := by
    intro s heq
    have hdigit : '-'.isDigit = true := isDigit_of_mem_digitsOf (heq ▸ List.mem_cons_self)
    cases hdigit
  cases negative with
  | true =>
    simp only [read?, if_true, List.cons_append, List.nil_append, htake]
    rfl
  | false =>
    simp only [read?, Bool.false_eq_true, if_false, List.nil_append, htake]
    rfl

/-- Every whole number that fits sixty-four bits, with or without sign, reads back. -/
theorem Number.readsBack_whole {n : Int} (hlow : -(twoTo 63 : Int) ≤ n) (hhigh : n < twoTo 64) :
    (Number.whole n).ReadsBack := by
  have hmost : twoTo 64 = 2 * twoTo 63 := rfl
  have hm : n.natAbs ≤ significandLimit := by
    have : significandLimit = twoTo 64 - 1 := rfl
    omega
  have hchars : (Number.whole n).chars =
      (if decide (n < 0) then ['-'] else []) ++ digitsOf n.natAbs := by
    simp [chars]
  have htake : takeSignificand 0 (digitsOf n.natAbs) = (n.natAbs, []) := by
    have hfold := foldl_digitsOf n.natAbs
    rw [takeSignificand_of_le (by rw [hfold]; exact hm), hfold]
  rw [Number.ReadsBack, hchars, Literal.read?_digitsOf, Option.bind_some]
  simp only [Literal.value?, htake]
  by_cases hneg : n < 0
  · have hbound : 0 < n.natAbs ∧ n.natAbs ≤ twoTo 63 := by omega
    have habs : -(n.natAbs : Int) = n := by omega
    simp only [hneg, decide_true, if_pos hbound, habs]
    rfl
  · have habs : (n.natAbs : Int) = n := by omega
    simp only [hneg, decide_false, habs]
    rfl

end Folio.Json
