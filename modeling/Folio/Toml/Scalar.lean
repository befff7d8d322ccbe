import Folio.Decimal.Plain

/-!
Scalars of settings files that are written without quotes: truth values, whole and real numbers,
dates and times.
-/
namespace Folio.Toml

open Decimal (digitValue ofDigits)

inductive Scalar where
  | bool (b : Bool)
  | whole (n : Int)
  | real
  | moment
  deriving DecidableEq, Repr

/-- Digits of a base with single underscores between them. -/
def underscored (isDigit : Char → Bool) : List Char → Option (List Char)
  | [] => none
  | [c] => if isDigit c then some [c] else none
  | c :: '_' :: s => if isDigit c then (underscored isDigit s).map (c :: ·) else none
  | c :: s => if isDigit c then (underscored isDigit s).map (c :: ·) else none

def isHexDigit (c : Char) : Bool := digitValue c < 16

/-- Decimal digits without a leading zero. -/
def decimal? (s : List Char) : Option (List Char) :=
  (underscored Char.isDigit s).bind fun ds =>
    match ds with
    | '0' :: _ :: _ => none
    | ds => some ds

/-- The whole numbers that have a value: those of 128 bits, signed or not. -/
def bounded (n : Int) : Option Scalar :=
  if -(Decimal.twoTo 127 : Int) ≤ n ∧ n < Decimal.twoTo 128 then some (.whole n) else none

def based? (base : Nat) (s : List Char) : Option Scalar :=
  (underscored (fun c => digitValue c < base) s).bind fun ds => bounded (ofDigits base ds)

def whole? (s : List Char) : Option Scalar :=
  match s with
  | '0' :: 'x' :: ds => based? 16 ds
  | '0' :: 'o' :: ds => based? 8 ds
  | '0' :: 'b' :: ds => based? 2 ds
  | '-' :: ds => (decimal? ds).bind fun ds => bounded (-(ofDigits 10 ds : Int))
  | '+' :: ds => (decimal? ds).bind fun ds => bounded (ofDigits 10 ds)
  | ds => (decimal? ds).bind fun ds => bounded (ofDigits 10 ds)

/-- An exponent: digits, zeros in front allowed, after an optional sign. -/
def exponent? (s : List Char) : Option Int :=
  let (negative, ds) := Decimal.splitSign s
  (underscored Char.isDigit ds).map (Decimal.exponentOf negative)

/-- A real number that is not too large. It has a fraction, an exponent, or is a word. -/
def real? (s : List Char) : Option Scalar :=
  let (_, body) := Decimal.splitSign s
  if body = ['i', 'n', 'f'] ∨ body = ['n', 'a', 'n'] then some .real
  else
    let isMark := fun c => c == 'e' || c == 'E'
    let mantissa := body.takeWhile (!isMark ·)
    let mark := body.dropWhile (!isMark ·)
    let whole := mantissa.takeWhile (· != '.')
    let point := mantissa.dropWhile (· != '.')
    let fraction := match point with
      | [] => some []
      | _ :: s => underscored Char.isDigit s
    let exponent := match mark with
      | [] => some 0
      | _ :: s => exponent? s
    if point.isEmpty && mark.isEmpty then none
    else
      match decimal? whole, fraction, exponent with
      | some ws, some fs, some e =>
        let code := Decimal.double.ofDecimal (ofDigits 10 (ws ++ fs)) (e - fs.length)
        if code = Decimal.double.infinity then none else some .real
      | _, _, _ => none

/-- Exactly `count` digits, as a number, with what follows them. -/
def fixedDigits? (count : Nat) (s : List Char) : Option (Nat × List Char) :=
  let ds := s.take count
  if ds.length = count ∧ ds.all Char.isDigit then some (ofDigits 10 ds, s.drop count) else none

def expect? (c : Char) : List Char → Option (List Char)
  | [] => none
  | d :: s => if d = c then some s else none

def isLeapYear (y : Nat) : Bool := y % 4 == 0 && (y % 100 != 0 || y % 400 == 0)

def daysIn (year month : Nat) : Nat :=
  if month = 2 then (if isLeapYear year then 29 else 28)
  else if month ∈ [4, 6, 9, 11] then 30
  else 31

/-- A date that exists, with what follows it. -/
def date? (s : List Char) : Option (List Char) := do
  let (year, s) ← fixedDigits? 4 s
  let s ← expect? '-' s
  let (month, s) ← fixedDigits? 2 s
  let s ← expect? '-' s
  let (day, s) ← fixedDigits? 2 s
  if 1 ≤ month ∧ month ≤ 12 ∧ 1 ≤ day ∧ day ≤ daysIn year month then some s else none

/-- A time of day, with what follows it. Seconds may be left out, and may have a fraction. -/
def time? (s : List Char) : Option (List Char) := do
  let (hour, s) ← fixedDigits? 2 s
  let s ← expect? ':' s
  let (minute, s) ← fixedDigits? 2 s
  if 23 < hour ∨ 59 < minute then none
  else
    match s with
    | ':' :: s =>
      let (second, s) ← fixedDigits? 2 s
      if 60 < second then none
      else
        match s with
        | '.' :: s =>
          if (s.takeWhile Char.isDigit).isEmpty then none else some (s.dropWhile Char.isDigit)
        | s => some s
    | s => some s

/-- Nothing, or an offset from universal time. -/
def isOffset : List Char → Bool
  | [] => true
  | ['Z'] => true
  | ['z'] => true
  | c :: s =>
    if c = '+' ∨ c = '-' then
      match fixedDigits? 2 s with
      | some (hour, ':' :: s) =>
        match fixedDigits? 2 s with
        | some (minute, []) => hour ≤ 23 && minute ≤ 59
        | _ => false
      | _ => false
    else false

/-- A date, a time, or both, the latter perhaps with an offset. -/
def moment? (s : List Char) : Option Scalar :=
  match date? s with
  | some [] => some .moment
  | some (c :: s) =>
    if c = 'T' ∨ c = 't' ∨ c = ' ' then
      match time? s with
      | some s => if isOffset s then some .moment else none
      | none => none
    else none
  | none =>
    match time? s with
    | some [] => some .moment
    | _ => none

def scalar? (s : List Char) : Option Scalar :=
  if s = ['t', 'r', 'u', 'e'] then some (.bool true)
  else if s = ['f', 'a', 'l', 's', 'e'] then some (.bool false)
  else (whole? s <|> real? s) <|> moment? s

end Folio.Toml
