import Folio.Text.Kebab

/-!
Tag names: their normal form and the elements that have no content.
-/
namespace Folio

/-- Why a page cannot have the structure asked for. -/
inductive StructureFault where
  | emptyTag
  | invalidTag (tag : String)
  | malformedRoute (reason : String)
  deriving DecidableEq, Repr

def StructureFault.message : StructureFault → String
  | .emptyTag => "Tag name is empty"
  | .invalidTag tag => s!"Invalid tag name: '{tag}'"
  | .malformedRoute reason => s!"Malformed route descriptor: {reason}"

namespace Tag

/-- Characters of a tag name after the first, which is a small letter. -/
def isNameChar (c : Char) : Bool := c.isLower || c.isDigit || c == '-'

def isName : List Char → Bool
  | [] => false
  | c :: s => c.isLower && s.all isNameChar

/-- The kebab form of a tag name, if that is a name. -/
def normalize (tag : String) : Except StructureFault String :=
  if Text.isBlankText tag then .error .emptyTag
  else
    let name := Text.kebab tag
    if isName name.toList then .ok name else .error (.invalidTag tag)

/-- Elements that never have children or a closing tag. -/
def voidNames : List String :=
  ["area", "base", "br", "col", "embed", "hr", "img", "input", "link", "meta", "param", "source",
    "track", "wbr"]

def isVoid (tag : String) : Bool := tag ∈ voidNames

end Tag

end Folio
