/-!
Numbers from their digits. Main statement: reading a long number half by half gives what reading it
digit by digit gives.
-/
namespace Folio.Decimal

/-- The value of a digit of a base up to sixteen. -/
def digitValue (c : Char) : Nat :=
  if c.isDigit then c.toNat - '0'.toNat
  else if 'a' ≤ c ∧ c ≤ 'f' then c.toNat - 'a'.toNat + 10
  else if 'A' ≤ c ∧ c ≤ 'F' then c.toNat - 'A'.toNat + 10
  else 99

/-- A number with one more digit. -/
def addDigit (base n : Nat) (c : Char) : Nat := n * base + digitValue c

/-- Up to this many digits are read one by one. -/
def shortLength : Nat := 64

/-- The number that digits stand for. Long numbers are read half by half, which costs much less than
growing them digit by digit. -/
def ofDigits (base : Nat) (s : List Char) : Nat :=
  if s.length ≤ shortLength then s.foldl (addDigit base) 0
  else
    let half := s.length / 2
    ofDigits base (s.take half) * Nat.pow base (s.length - half) + ofDigits base (s.drop half)
termination_by s.length
decreasing_by all_goals simp [shortLength] at *; omega

theorem foldl_addDigit (base n : Nat) (s : List Char) :
    s.foldl (addDigit base) n = n * Nat.pow base s.length + s.foldl (addDigit base) 0 := by
  induction s generalizing n with
  | nil => simp
  | cons c s ih =>
    rw [List.foldl_cons, List.foldl_cons, ih (addDigit base n c), ih (addDigit base 0 c)]
    have hp : Nat.pow base (c :: s).length = Nat.pow base s.length * base := rfl
    simp only [hp, addDigit, Nat.zero_mul, Nat.zero_add, Nat.add_mul]
    rw [Nat.mul_comm (Nat.pow base s.length) base, ← Nat.mul_assoc, Nat.add_assoc]

theorem ofDigits_eq_foldl (base : Nat) (s : List Char) :
    ofDigits base s = s.foldl (addDigit base) 0 := by
  fun_induction ofDigits base s with
  | case1 s h => rfl
  | case2 s h half ih ih' =>
    have hs : s = s.take half ++ s.drop half := (List.take_append_drop half s).symm
    have hl : (s.drop half).length = s.length - half := List.length_drop
    rw [ih, ih', hs, List.foldl_append, foldl_addDigit base _ (s.drop half), ← hs, hl]

end Folio.Decimal
