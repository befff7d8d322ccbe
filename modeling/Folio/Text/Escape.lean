import Folio.Text.Search

/-!
Escapes that keep a text inside its place: entities for text and attribute values, and broken-up
sequences for what stands inside a script or style element.
-/
namespace Folio.Text

/-- The entity of a character that has one, else the character itself. Both quotes have entities, so
the result is safe within either quoting style. -/
def entity : Char → List Char
  | '&' => ['&', 'a', 'm', 'p', ';']
  | '<' => ['&', 'l', 't', ';']
  | '>' => ['&', 'g', 't', ';']
  | '"' => ['&', 'q', 'u', 'o', 't', ';']
  | '\'' => ['&', '#', 'x', '2', '7', ';']
  | c => [c]

/-- A text as it is written into markup. -/
def escapeChars (s : List Char) : List Char := s.flatMap entity

/-- Whether a character has an entity. -/
def hasEntity (c : Char) : Bool := c == '&' || c == '<' || c == '>' || c == '"' || c == '\''

/-- An escaped text: a text lent out as it is, or one that was written anew. -/
inductive Escaped where
  | borrowed (s : String)
  | owned (s : String)
  deriving DecidableEq, Repr

def Escaped.text : Escaped → String
  | borrowed s => s
  | owned s => s

/-- Writes a text anew only if something in it has an entity. -/
def escaped (s : String) : Escaped :=
  if s.toList.any hasEntity then .owned (String.ofList (escapeChars s.toList)) else .borrowed s

def escape (s : String) : String := (escaped s).text

/-- Breaks up every `</` and then every `<!--`, so that the text can end no raw element and open no
comment in one. A backslash before a slash or a bang changes no string literal of a script. -/
def embedChars (s : List Char) : List Char :=
  replaceAll ['<', '!', '-', '-'] ['<', '\\', '!', '-', '-']
    (replaceAll ['<', '/'] ['<', '\\', '/'] s)

def embed (s : String) : String := String.ofList (embedChars s.toList)

end Folio.Text
