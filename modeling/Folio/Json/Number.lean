import Folio.Decimal.Digits
import Folio.Decimal.Shortest

/-!
Numbers of JSON texts. A literal without point and exponent that fits sixty-four bits is a whole
number; every other literal, and minus zero, is a binary double.
-/
namespace Folio.Json

open Folio.Decimal

inductive Number where
  | whole (n : Int)
  | real (x : Binary)
  deriving DecidableEq, Repr

/-- The parts of a number literal: sign, digits before the point, digits after it, exponent. -/
structure Literal where
  negative : Bool
  whole : List Char
  fraction : Option (List Char)
  exponent : Option Int
  deriving DecidableEq, Repr

namespace Literal

/-- Splits digits from the front. -/
def takeDigits (s : List Char) : List Char × List Char :=
  (s.takeWhile Char.isDigit, s.dropWhile Char.isDigit)

def readExponent? : List Char → Option (Option Int)
  | [] => some none
  | mark :: s =>
    if mark = 'e' ∨ mark = 'E' then
      let (negative, digits) := match s with
        | '-' :: ds => (true, ds)
        | '+' :: ds => (false, ds)
        | ds => (false, ds)
      if digits.isEmpty || !digits.all Char.isDigit then none
      else
        let n := ofDigits 10 digits
        some (some (if negative then -(n : Int) else n))
    else none

/-- Reads a literal: no plus sign, no leading zero, and digits on both sides of a point. -/
def read? (s : List Char) : Option Literal :=
  let (negative, s) := match s with
    | '-' :: s => (true, s)
    | s => (false, s)
  let (whole, s) := takeDigits s
  match whole with
  | [] => none
  | '0' :: _ :: _ => none
  | _ =>
    match s with
    | '.' :: s =>
      let (fraction, s) := takeDigits s
      if fraction.isEmpty then none
      else (readExponent? s).map fun e => ⟨negative, whole, some fraction, e⟩
    | s => (readExponent? s).map fun e => ⟨negative, whole, none, e⟩

end Literal

/-- The largest significand that is kept exactly. -/
def significandLimit : Nat := UInt64.size - 1

/-- Takes digits while the significand stays within its limit; returns it with the digits left. -/
def takeSignificand (m : Nat) : List Char → Nat × List Char
  | [] => (m, [])
  | c :: s =>
    let m' := addDigit 10 m c
    if significandLimit < m' then (m, c :: s) else takeSignificand m' s

/-- `m * 10 ^ e` for a magnitude `m`, by one multiplication or division for every 308 powers of ten;
`none` if it is too large. -/
def scale (m : Nat) (e : Int) : Option Nat :=
  if e.natAbs ≤ 308 then
    if 0 ≤ e then
      let product := double.mul m (double.nearest (tenTo e.toNat) 1)
      if product = double.infinity then none else some product
    else some (double.div m (double.nearest (tenTo (-e).toNat) 1))
  else if m = 0 then some 0
  else if 0 ≤ e then none
  else scale (double.div m (double.nearest (tenTo 308) 1)) (e + 308)
termination_by e.natAbs
decreasing_by omega

/-- The value of a literal; `none` if it is too large for a double. Digits beyond the significand's
limit count as zeros. -/
def Literal.value? (l : Literal) : Option Number :=
  let (m, dropped) := takeSignificand 0 l.whole
  match l.fraction, l.exponent, dropped with
  | none, none, [] =>
    if !l.negative then some (.whole m)
    else if 0 < m ∧ m ≤ twoTo 63 then some (.whole (-(m : Int)))
    else some (.real ⟨true, double.nearest m 1⟩)
  | fraction, exponent, _ =>
    let digits := fraction.getD []
    let (m, rest) := takeSignificand m digits
    let places : Int := (dropped.length : Int) - (digits.length - rest.length : Nat)
    (scale (double.nearest m 1) (places + exponent.getD 0)).map fun code =>
      .real ⟨l.negative, code⟩

namespace Number

/-- Numbers are written as whole numbers or with the fewest digits that read back, ties to the even
last digit; a whole double keeps `.0`, and an exponent is used from `1e+16` up and below `1e-5`. -/
def chars : Number → List Char
  | .whole n => (if n < 0 then ['-'] else []) ++ digitsOf n.natAbs
  | .real x =>
    let s := double.shortest .toEven x.code
    let body :=
      if -5 ≤ s.lead ∧ s.lead < 16 then s.positional ['.', '0'] else s.scientific
    if x.negative then '-' :: body else body

/-- Equality of values: the two zeros are equal, and a whole number never equals a double. -/
def same : Number → Number → Bool
  | .whole m, .whole n => m == n
  | .real x, .real y => x == y || (x.code == 0 && y.code == 0)
  | _, _ => false

end Number

end Folio.Json
