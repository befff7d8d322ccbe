import Folio.Text.Blank
import Folio.Text.Search

/-!
Minification of markup. A page is cut into tags, comments and preserved elements, which are kept
whole, and text, in which long or line-breaking runs of white space shrink. Main statement: the
cutting ends, since each piece takes at least one character.
-/
namespace Folio.Markup

open Text

/-- Pages of more bytes than this are left as they are. -/
def minifyLimit : Nat := 1024 * 1024

/-- Runs of more characters than this are long. -/
def shortRun : Nat := 3

/-- Elements whose content is kept. -/
def preservedNames : List (List Char) :=
  ["pre".toList, "textarea".toList, "script".toList, "style".toList]

/-- Whether the name of a tag may end before this text. -/
def endsName : List Char → Bool
  | [] => true
  | c :: _ => c == '>' || c == '/' || isAsciiBlank c

/-- The number of characters up to and including the first `>`, or all. -/
def throughClose : Nat → List Char → Nat
  | n, [] => n
  | n, c :: s => if c = '>' then n + 1 else throughClose (n + 1) s

/-- The number of characters up to and including the closing tag that starts with `closing` in any
case, or all. -/
def throughElement (closing : List Char) : Nat → List Char → Nat
  | n, [] => n
  | n, c :: s =>
    if (afterAnyCase? closing (c :: s)).isSome then throughClose n (c :: s)
    else throughElement closing (n + 1) s

/-- The preserved element that a text after `<` names, with the text after the name. -/
def preservedName? (s : List Char) : Option (List Char × List Char) :=
  preservedNames.findSome? fun name =>
    (afterAnyCase? name s).bind fun rest => if endsName rest then some (name, rest) else none

/-- The length of a preserved element after its first `<`. -/
def preservedLength? (s : List Char) : Option Nat :=
  (preservedName? s).map fun (name, rest) =>
    throughElement ('<' :: '/' :: name) name.length rest

/-- Where the reading of a tag stands: inside quotes, or outside and perhaps after an equals sign.
-/
inductive Place where
  | quoted (quote : Char)
  | plain (afterEquals : Bool)
  deriving DecidableEq, Repr

/-- The number of characters through the `>` that ends a tag, or all. Quotes count only where an
attribute value starts. -/
def tagLength : Place → Nat → List Char → Nat
  | _, n, [] => n
  | .quoted q, n, c :: s => tagLength (if c = q then .plain false else .quoted q) (n + 1) s
  | .plain eq, n, c :: s =>
    if eq && (c == '"' || c == '\'') then tagLength (.quoted c) (n + 1) s
    else if c = '>' then n + 1
    else if isAsciiBlank c then tagLength (.plain eq) (n + 1) s
    else tagLength (.plain (c == '=')) (n + 1) s

/-- The number of characters through the end of a comment, or all. -/
def commentLength : Nat → List Char → Nat
  | n, [] => n
  | n, c :: s =>
    if ['-', '-', '>'].isPrefixOf (c :: s) then n + 3 else commentLength (n + 1) s

/-- The length of a tag or comment after its `<`, if the next character can start one. -/
def tagLength? (s : List Char) : Option Nat :=
  match s with
  | [] => none
  | c :: _ =>
    if c.isAlpha || c == '/' || c == '!' then
      match after? ['!', '-', '-'] s with
      | some rest => some (commentLength 3 rest)
      | none => some (tagLength (.plain false) 0 s)
    else none

/-- A piece of markup. -/
inductive Piece where
  /-- A tag, a comment or a preserved element. -/
  | whole (s : List Char)
  /-- A maximal run of white space in text. -/
  | blank (s : List Char)
  /-- Any other character of text. -/
  | visible (c : Char)
  deriving DecidableEq, Repr

/-- The length of the piece after a `<` that is kept whole. -/
def wholeLength? (s : List Char) : Option Nat :=
  (preservedLength? s).or (tagLength? s)

/-- Cuts markup into pieces; `done` is reversed. -/
def cutFrom (done : List Piece) : List Char → List Piece
  | [] => done.reverse
  | c :: s =>
    match if c = '<' then wholeLength? s else none with
    | some n => cutFrom (.whole (c :: s.take n) :: done) (s.drop n)
    | none =>
      if isAsciiBlank c then
        cutFrom (.blank (c :: s.takeWhile isAsciiBlank) :: done) (s.dropWhile isAsciiBlank)
      else cutFrom (.visible c :: done) s
termination_by s => s.length
decreasing_by
  · simp only [List.length_drop, List.length_cons]; omega
  · have := (List.dropWhile_sublist isAsciiBlank (l := s)).length_le
    simp only [List.length_cons]; omega
  · simp

def cut (s : List Char) : List Piece := cutFrom [] s

/-- Whether a run is kept as it is. -/
def isShort (run : List Char) : Bool := !run.contains '\n' && run.length ≤ shortRun

/-- Whether a tag or nothing stands before; the result so far is reversed. -/
def afterTag : List Char → Bool
  | [] => true
  | c :: _ => c == '>'

/-- Whether a piece that starts with `<` or nothing follows. -/
def beforeTag : List Piece → Bool
  | [] => true
  | .whole _ :: _ => true
  | .visible c :: _ => c == '<'
  | .blank _ :: _ => false

/-- Puts pieces together again. A run that is not short vanishes between tags and is one space
elsewhere. -/
def joinFrom (done : List Char) : List Piece → List Char
  | [] => done.reverse
  | .whole s :: ps => joinFrom (s.reverseAux done) ps
  | .visible c :: ps => joinFrom (c :: done) ps
  | .blank run :: ps =>
    if isShort run then joinFrom (run.reverseAux done) ps
    else if afterTag done && beforeTag ps then joinFrom done ps
    else joinFrom (' ' :: done) ps

def minifyChars (s : List Char) : List Char := joinFrom [] (cut s)

/-- Minified markup. -/
def minify (html : String) : String :=
  if minifyLimit < html.utf8ByteSize then html else via minifyChars html

end Folio.Markup
