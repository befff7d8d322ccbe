import Folio.Decimal.Power

/-!
Binary floating-point numbers as exact data: a sign and the code of a magnitude. Arithmetic is done
on quotients of natural numbers and rounded once, to the nearest value, ties to even.
-/
namespace Folio.Decimal

/-- Widths of a binary interchange format. -/
structure Format where
  fractionBits : Nat
  exponentBits : Nat

def double : Format := ⟨52, 11⟩

def single : Format := ⟨23, 8⟩

/-- A number of some format. The code of its magnitude holds the exponent above the fraction, so
codes are ordered as the magnitudes are. -/
structure Binary where
  negative : Bool
  code : Nat
  deriving DecidableEq, Repr, Inhabited

namespace Format

variable (f : Format)

/-- The exponent of the last bit of the smallest values. -/
def leastExponent : Int := 2 - twoTo (f.exponentBits - 1) - f.fractionBits

/-- The code above all finite ones. -/
def infinity : Nat := (twoTo f.exponentBits - 1) * twoTo f.fractionBits

/-- Magnitude `m * 2 ^ q` of a finite code, as the pair of `m` and `q`. -/
def magnitude (code : Nat) : Nat × Int :=
  let e := code / twoTo f.fractionBits
  if e = 0 then (code, f.leastExponent)
  else (twoTo f.fractionBits + code % twoTo f.fractionBits, f.leastExponent + e - 1)

/-- The whole number next to `n / d`; halves go to the even neighbour. -/
def roundDiv (n d : Nat) : Nat :=
  let q := n / d
  let r := n % d
  if 2 * r < d then q
  else if d < 2 * r then q + 1
  else q + q % 2

/-- The code of the value nearest to `n / d`. -/
def nearest (n d : Nat) : Nat :=
  if n = 0 then 0
  else
    let estimate : Int := (Nat.log2 n : Int) - Nat.log2 d
    let enough : Bool :=
      if 0 ≤ estimate then d * twoTo estimate.toNat ≤ n else d ≤ n * twoTo (-estimate).toNat
    let top := if enough then estimate else estimate - 1
    let q := max f.leastExponent (top - f.fractionBits)
    let m := if 0 ≤ q then roundDiv n (d * twoTo q.toNat) else roundDiv (n * twoTo (-q).toNat) d
    min f.infinity ((q - f.leastExponent).toNat * twoTo f.fractionBits + m)

/-- A magnitude as a quotient. -/
def fraction (code : Nat) : Nat × Nat :=
  let (m, q) := f.magnitude code
  if 0 ≤ q then (m * twoTo q.toNat, 1) else (m, twoTo (-q).toNat)

/-- The rounded product of two finite magnitudes. -/
def mul (a b : Nat) : Nat :=
  let (n, d) := f.fraction a
  let (n', d') := f.fraction b
  f.nearest (n * n') (d * d')

/-- The rounded quotient of a finite magnitude by a positive one. -/
def div (a b : Nat) : Nat :=
  let (n, d) := f.fraction a
  let (n', d') := f.fraction b
  f.nearest (n * d') (d * n')

/-- Whether `digits * 10 ^ exponent` is above all finite values because even `digits * 8 ^ exponent`
is. -/
def isHuge (digits : Nat) (exponent : Int) : Bool :=
  0 ≤ exponent && (twoTo (f.exponentBits - 1) : Int) ≤ Nat.log2 digits + 3 * exponent

/-- Whether `digits * 10 ^ exponent` rounds to zero because even `digits * 8 ^ exponent` does. -/
def isTiny (digits : Nat) (exponent : Int) : Bool :=
  exponent ≤ 0 && (Nat.log2 digits : Int) + 1 + 3 * exponent < f.leastExponent

/-- The code nearest to `digits * 10 ^ exponent`. Powers of ten are formed only where they matter.
-/
def ofDecimal (digits : Nat) (exponent : Int) : Nat :=
  if digits = 0 then 0
  else if f.isHuge digits exponent then f.infinity
  else if f.isTiny digits exponent then 0
  else if 0 ≤ exponent then f.nearest (digits * tenTo exponent.toNat) 1
  else f.nearest digits (tenTo (-exponent).toNat)

/-- The sign and the code as one word. -/
def bits (x : Binary) : Nat :=
  (if x.negative then twoTo (f.fractionBits + f.exponentBits) else 0) + x.code

end Format

end Folio.Decimal
