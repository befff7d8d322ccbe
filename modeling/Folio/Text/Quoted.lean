import Folio.Text.CaseTable
import Folio.Text.GlyphTable

/-!
Quoting for messages: a text between double quotes in which every character can be told apart by
eye.
-/
namespace Folio.Text

def isPrintable (c : Char) : Bool :=
  !inBounds unprintableBounds c.toNat && !inBounds graphemeExtendBounds c.toNat

/-- The lower-case hexadecimal digits of a number. -/
def hex (n : Nat) : List Char := Nat.toDigits 16 n

/-- A character inside the quotes. -/
def quotedChar : Char → List Char
  | '\x00' => ['\\', '0']
  | '\t' => ['\\', 't']
  | '\n' => ['\\', 'n']
  | '\r' => ['\\', 'r']
  | '\\' => ['\\', '\\']
  | '"' => ['\\', '"']
  | c => if isPrintable c then [c] else ['\\', 'u', '\x7b'] ++ hex c.toNat ++ ['\x7d']

def quoted (s : String) : String :=
  String.ofList ('"' :: s.toList.flatMap quotedChar ++ ['"'])

end Folio.Text
