/-!
White space, in the sense of Unicode and in the narrower sense of ASCII, and what it does to a text:
its trimmed form and its words.
-/
namespace Folio.Text

/-- The characters with the Unicode property White_Space. -/
def isBlank (c : Char) : Bool :=
  let n := c.toNat
  (9 ≤ n && n ≤ 13) || n == 0x20 || n == 0x85 || n == 0xA0 || n == 0x1680
    || (0x2000 ≤ n && n ≤ 0x200A) || n == 0x2028 || n == 0x2029 || n == 0x202F || n == 0x205F
    || n == 0x3000

/-- Space, tab, line feed, form feed and carriage return. -/
def isAsciiBlank (c : Char) : Bool :=
  c == ' ' || c == '\t' || c == '\n' || c == '\x0c' || c == '\r'

/-- Applies a function on character lists to a text. -/
def via (f : List Char → List Char) (s : String) : String := String.ofList (f s.toList)

@[simp] theorem toList_via (f : List Char → List Char) (s : String) :
    (via f s).toList = f s.toList := by
  simp [via]

/-- Drops the white space at the end. -/
def trimEnd (s : List Char) : List Char := (s.reverse.dropWhile isBlank).reverse

/-- Drops the white space at both ends. -/
def trim (s : List Char) : List Char := trimEnd (s.dropWhile isBlank)

/-- Holds of a text without a visible character. -/
def isBlankText (s : String) : Bool := s.toList.all isBlank

/-- Adds a character to the word under construction, or closes that word at white space. -/
def wordsFrom (word : List Char) : List Char → List (List Char)
  | [] => if word.isEmpty then [] else [word.reverse]
  | c :: s =>
    if isBlank c then
      if word.isEmpty then wordsFrom [] s else word.reverse :: wordsFrom [] s
    else wordsFrom (c :: word) s

/-- The maximal runs of visible characters, in order. -/
def words (s : List Char) : List (List Char) := wordsFrom [] s

end Folio.Text
