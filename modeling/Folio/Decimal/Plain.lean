import Folio.Decimal.Digits
import Folio.Decimal.Shortest

/-!
Plain decimal text of numbers shown to readers: never an exponent, no point after a whole number,
and of two equally near decimals the larger one.
-/
namespace Folio.Decimal

/-- The plain text of a binary number, with words for what is not finite. -/
def Format.plain (f : Format) (x : Binary) : String :=
  if f.infinity < x.code then "NaN"
  else
    let body :=
      if x.code = f.infinity then ['i', 'n', 'f'] else (f.shortest .up x.code).positional []
    String.ofList (if x.negative then '-' :: body else body)

/-- Digits, read as a natural number. -/
def readDigits? (s : List Char) : Option Nat :=
  if s.isEmpty || !s.all Char.isDigit then none
  else some (ofDigits 10 s)

/-- A sign, if there is one, and the rest. -/
def splitSign : List Char → Bool × List Char
  | '-' :: s => (true, s)
  | '+' :: s => (false, s)
  | s => (false, s)

/-- A whole number with an optional sign. -/
def readInt? (s : String) : Option Int :=
  let (negative, digits) := splitSign s.toList
  (readDigits? digits).map fun n => if negative then -(n : Int) else n

/-- Once an exponent has reached this size, its further digits are skipped. -/
def exponentLimit : Nat := 65536

/-- The exponent that digits stand for after an optional minus sign, as far as its limit goes. -/
def exponentOf (negative : Bool) (s : List Char) : Int :=
  let e := s.foldl (fun e c => if e < exponentLimit then addDigit 10 e c else e) 0
  if negative then -(e : Int) else e

/-- An exponent: at least one digit after an optional sign. -/
def readExponent? (s : List Char) : Option Int :=
  let (negative, digits) := splitSign s
  if digits.isEmpty || !digits.all Char.isDigit then none else some (exponentOf negative digits)

/-- Digits with an optional point, at least one digit in all. -/
def readMantissa? (s : List Char) : Option Scaled :=
  let whole := s.takeWhile (· != '.')
  let fraction := (s.dropWhile (· != '.')).drop 1
  (readDigits? (whole ++ fraction)).map fun n => ⟨n, -(fraction.length : Int)⟩

/-- A decimal number, read to the nearest value of the format. The words for infinity and for what
is no number may be written in any case. -/
def Format.readPlain? (f : Format) (s : String) : Option Binary :=
  let (negative, body) := splitSign s.toList
  let word := String.ofList (body.map Char.toLower)
  if word = "nan" then some ⟨negative, f.infinity + twoTo (f.fractionBits - 1)⟩
  else if word = "inf" ∨ word = "infinity" then some ⟨negative, f.infinity⟩
  else
    let isMark := fun c => c == 'e' || c == 'E'
    let mantissa := body.takeWhile (!isMark ·)
    match readMantissa? mantissa, body.dropWhile (!isMark ·) with
    | some x, [] => some ⟨negative, f.ofDecimal x.digits x.exponent⟩
    | some x, _ :: exponent =>
      (readExponent? exponent).map fun e =>
        ⟨negative, f.ofDecimal x.digits (x.exponent + e)⟩
    | none, _ => none

end Folio.Decimal
