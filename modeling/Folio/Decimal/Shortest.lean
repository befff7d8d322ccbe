import Folio.Decimal.Binary

/-!
The decimal text of a binary number: the fewest digits that read back as the number and, of those,
the nearest to it. Where two are equally near, formats differ in which they take.
-/
namespace Folio.Decimal

/-- The number `digits * 10 ^ exponent`. -/
structure Scaled where
  digits : Nat
  exponent : Int
  deriving DecidableEq, Repr

/-- Which of two equally near decimals a format takes: the one with an even last digit, or the one
of larger magnitude. -/
inductive Tie where
  | toEven
  | up
  deriving DecidableEq, Repr

/-- Whether the lower of two equally near decimals is taken; `low` holds its digits. -/
def Tie.takesLower (tie : Tie) (low : Nat) : Bool :=
  match tie with
  | .toEven => low % 2 = 0
  | .up => false

/-- The digits of a number, most significant first. -/
def digitsOf (n : Nat) : List Char := Nat.toDigits 10 n

/-- The exponent of the first decimal digit of `n / d`. -/
def leadExponent (n d : Nat) : Int :=
  let estimate : Int := ((digitsOf n).length : Int) - (digitsOf d).length
  let enough : Bool :=
    if 0 ≤ estimate then d * tenTo estimate.toNat ≤ n else d ≤ n * tenTo (-estimate).toNat
  if enough then estimate else estimate - 1

/-- The reals that round to one value, in units of a quarter of its last bit: from `value - below`
to `value + above`, ends included if `closed`. The unit is `num / den`. -/
structure Rounding where
  value : Nat
  below : Nat
  above : Nat
  closed : Bool
  num : Nat
  den : Nat

/-- The reals that round to a finite positive code. -/
def Format.rounding (f : Format) (code : Nat) : Rounding :=
  let (m, q) := f.magnitude code
  let narrow := m = twoTo f.fractionBits ∧ f.leastExponent < q
  let q := q - 2
  { value := 4 * m
    below := if narrow then 1 else 2
    above := 2
    closed := m % 2 = 0
    num := if 0 ≤ q then twoTo q.toNat else 1
    den := if 0 ≤ q then 1 else twoTo (-q).toNat }

namespace Rounding

variable (r : Rounding)

/-- Whether `d * 10 ^ e` reads back as the value. -/
def holds (d : Nat) (e : Int) : Bool :=
  let up := if 0 ≤ e then 1 else tenTo (-e).toNat
  let down := if 0 ≤ e then tenTo e.toNat else 1
  let point := d * down * r.den
  let low := (r.value - r.below) * r.num * up
  let high := (r.value + r.above) * r.num * up
  if r.closed then low ≤ point && point ≤ high else low < point && point < high

/-- The two neighbours of the value on the grid of `10 ^ e`, and whether the lower one is nearer, or
as near and taken. -/
def neighbours (tie : Tie) (e : Int) : Nat × Nat × Bool :=
  let up := if 0 ≤ e then 1 else tenTo (-e).toNat
  let down := if 0 ≤ e then tenTo e.toNat else 1
  let n := r.value * r.num * up
  let d := r.den * down
  let low := n / d
  let rest := n % d
  (low, low + 1, 2 * rest < d || (2 * rest = d && tie.takesLower low))

/-- The point of the grid of `10 ^ e` that reads back as the value, if there is one. -/
def onGrid? (tie : Tie) (e : Int) : Option Nat :=
  let (low, high, lowNearer) := r.neighbours tie e
  match r.holds low e, r.holds high e with
  | true, true => some (if lowNearer then low else high)
  | true, false => some low
  | false, true => some high
  | false, false => none

/-- Refines the grid digit by digit until it has a point that reads back. -/
def search (tie : Tie) (lead : Int) : Nat → Nat → Scaled
  | 0, count => ⟨(r.neighbours tie (lead + 1 - count)).1, lead + 1 - count⟩
  | fuel + 1, count =>
    match r.onGrid? tie (lead + 1 - count) with
    | some d => ⟨d, lead + 1 - count⟩
    | none => search tie lead fuel (count + 1)

end Rounding

/-- Moves zeros at the end of the digits into the exponent. -/
def Scaled.strip : Nat → Scaled → Scaled
  | 0, x => x
  | fuel + 1, x =>
    if x.digits ≠ 0 ∧ x.digits % 10 = 0 then strip fuel ⟨x.digits / 10, x.exponent + 1⟩ else x

/-- The shortest decimal that reads back as a finite code. Seventeen digits always suffice. -/
def Format.shortest (f : Format) (tie : Tie) (code : Nat) : Scaled :=
  if code = 0 then ⟨0, 0⟩
  else
    let (n, d) := f.fraction code
    ((f.rounding code).search tie (leadExponent n d) 17 1).strip 17

namespace Scaled

/-- The exponent of the first digit. -/
def lead (x : Scaled) : Int := ((digitsOf x.digits).length : Int) - 1 + x.exponent

/-- Digits with a point where it belongs and no exponent. A whole number ends with `whole`. -/
def positional (whole : List Char) (x : Scaled) : List Char :=
  let ds := digitsOf x.digits
  if 0 ≤ x.exponent then ds ++ List.replicate x.exponent.toNat '0' ++ whole
  else
    let places := (-x.exponent).toNat
    if places < ds.length then
      ds.take (ds.length - places) ++ '.' :: ds.drop (ds.length - places)
    else '0' :: '.' :: (List.replicate (places - ds.length) '0' ++ ds)

/-- One digit before the point, and a signed exponent. -/
def scientific (x : Scaled) : List Char :=
  let mantissa := match digitsOf x.digits with
    | [] => []
    | [d] => [d]
    | d :: ds => d :: '.' :: ds
  mantissa ++ 'e' :: (if x.lead < 0 then '-' else '+') :: digitsOf x.lead.natAbs

end Scaled

end Folio.Decimal
