import Folio.Text.CaseTable

/-!
Lower-casing of a whole text by the rules of Unicode, without regard to language.
-/
namespace Folio.Text

def isCased (c : Char) : Bool := inBounds casedBounds c.toNat

def isCaseIgnorable (c : Char) : Bool := inBounds caseIgnorableBounds c.toNat

/-- Whether the first character that matters for case is a letter with case. -/
def meetsCased (s : List Char) : Bool :=
  match s.dropWhile isCaseIgnorable with
  | [] => false
  | c :: _ => isCased c

/-- The lower-case form of a character on its own. -/
def lowerChar (c : Char) : List Char :=
  if c = 'İ' then ['i', '\u0307']
  else match lowerRuns.findSome? (·.image? c.toNat) with
    | some n => [Char.ofNat n]
    | none => [c]

/-- Lower-cases a text whose reversed beginning is `before`. A capital sigma that ends a word
becomes a final sigma. -/
def lowerFrom (before : List Char) : List Char → List (List Char)
  | [] => []
  | c :: s =>
    let image :=
      if c = 'Σ' then if meetsCased before && !meetsCased s then ['ς'] else ['σ'] else lowerChar c
    image :: lowerFrom (c :: before) s

def lower (s : List Char) : List Char := (lowerFrom [] s).flatten

end Folio.Text
