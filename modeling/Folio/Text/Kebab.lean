import Folio.Text.Blank

/-!
Kebab case, the normal form of attribute names, style properties and tags: lower-case words joined
by single dashes, with the two leading dashes of a custom property kept.
-/
namespace Folio.Text

/-- A dash after `out` (reversed), unless it would lead or repeat. -/
def joinDash (out : List Char) : List Char :=
  match out with
  | [] => []
  | '-' :: _ => out
  | _ => '-' :: out

/-- Whether a capital after this character starts a new word. -/
def endsWord : Option Char → Bool
  | some c => c.isLower || c.isDigit
  | none => false

/-- Reads one character: `previous` is the one before it, `out` the reversed result so far. -/
def kebabStep (previous : Option Char) (out : List Char) (c : Char) : List Char :=
  if c.isUpper then
    c.toLower :: (if endsWord previous then joinDash out else out)
  else if c.isLower || c.isDigit || c == ':' then c :: out
  else if c == '-' || c == '_' || isBlank c then joinDash out
  else out

/-- Reads the rest of a name. -/
def kebabFrom (previous : Option Char) (out : List Char) : List Char → List Char
  | [] => out
  | c :: s => kebabFrom (some c) (kebabStep previous out c) s

/-- Drops a dash at the end of a reversed name; two leading dashes alone are kept. -/
def dropLastDash : List Char → List Char
  | ['-', '-'] => ['-', '-']
  | '-' :: out => out
  | out => out

def kebabChars (name : List Char) : List Char :=
  match trim name with
  | '-' :: '-' :: body => (dropLastDash (kebabFrom none ['-', '-'] body)).reverse
  | body => (dropLastDash (kebabFrom none [] body)).reverse

/-- The kebab form of a name: capitals are lowered, and a capital after a small letter or digit
starts a word; dashes, underscores and white space join words; a colon is kept; all else is dropped.
-/
def kebab (name : String) : String := String.ofList (kebabChars name.toList)

end Folio.Text
