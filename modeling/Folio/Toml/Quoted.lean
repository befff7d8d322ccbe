import Folio.Toml.Scalar

/-!
Quoted text of settings files: basic strings with escapes, literal strings without, and the forms of
both that span lines.
-/
namespace Folio.Toml

open Decimal (ofDigits)

/-- Control characters other than the tab may stand in no text. -/
def isControl (c : Char) : Bool := (c.toNat < 0x20 && c != '\t') || c.toNat == 0x7F

/-- A line ending, with what follows it. -/
def newline? : List Char → Option (List Char)
  | '\n' :: s => some s
  | '\r' :: '\n' :: s => some s
  | _ => none

/-- The character of a code point, if there is one. -/
def scalarValue? (n : Nat) : Option Char := if n.isValidChar then some (Char.ofNat n) else none

/-- Exactly `count` hexadecimal digits as a character. -/
def hexChar? (count : Nat) (s : List Char) : Option (Char × List Char) :=
  let ds := s.take count
  if ds.length = count ∧ ds.all isHexDigit then
    (scalarValue? (ofDigits 16 ds)).map fun c => (c, s.drop count)
  else none

/-- What an escape stands for, with what follows it. -/
def escape? : List Char → Option (Char × List Char)
  | 'b' :: s => some ('\x08', s)
  | 't' :: s => some ('\t', s)
  | 'n' :: s => some ('\n', s)
  | 'f' :: s => some ('\x0c', s)
  | 'r' :: s => some ('\r', s)
  | 'e' :: s => some ('\x1b', s)
  | '"' :: s => some ('"', s)
  | '\\' :: s => some ('\\', s)
  | 'x' :: s => hexChar? 2 s
  | 'u' :: s => hexChar? 4 s
  | 'U' :: s => hexChar? 8 s
  | _ => none

def isInlineSpace (c : Char) : Bool := c == ' ' || c == '\t'

/-- Skips blanks and line endings. -/
def skipBlankLines : List Char → List Char
  | [] => []
  | '\r' :: '\n' :: s => skipBlankLines s
  | c :: s => if isInlineSpace c || c == '\n' then skipBlankLines s else c :: s

/-- What follows a backslash at the end of a line: the line ending is skipped, with all blanks and
line endings after it. -/
def skipLineEnd? (s : List Char) : Option (List Char) :=
  (newline? (s.dropWhile isInlineSpace)).map skipBlankLines

/-- The rest of a basic string on one line; `done` is reversed. -/
def basic? : Nat → List Char → List Char → Option (String × List Char)
  | 0, _, _ => none
  | fuel + 1, done, s =>
    match s with
    | [] => none
    | '"' :: s => some (String.ofList done.reverse, s)
    | '\\' :: s => (escape? s).bind fun (c, s) => basic? fuel (c :: done) s
    | c :: s => if isControl c then none else basic? fuel (c :: done) s

/-- The rest of a literal string on one line. -/
def literal? (done : List Char) : List Char → Option (String × List Char)
  | [] => none
  | '\'' :: s => some (String.ofList done.reverse, s)
  | c :: s => if isControl c then none else literal? (c :: done) s

/-- The quotes at the end of a text over several lines: up to two of them belong to the text. -/
def closing? (quote : Char) (done s : List Char) : Option (String × List Char) :=
  let count := (s.takeWhile (· == quote)).length
  if count < 3 then none
  else
    let kept := min (count - 3) 2
    some (String.ofList (done.reverse ++ List.replicate kept quote), s.drop (3 + kept))

/-- The rest of a basic string over several lines. Line endings are kept as they are. -/
def basicLines? : Nat → List Char → List Char → Option (String × List Char)
  | 0, _, _ => none
  | fuel + 1, done, s =>
    match s with
    | [] => none
    | '"' :: rest =>
      match closing? '"' done s with
      | some r => some r
      | none => basicLines? fuel ('"' :: done) rest
    | '\\' :: s =>
      match skipLineEnd? s with
      | some s => basicLines? fuel done s
      | none => (escape? s).bind fun (c, s) => basicLines? fuel (c :: done) s
    | '\n' :: rest => basicLines? fuel ('\n' :: done) rest
    | '\r' :: '\n' :: rest => basicLines? fuel ('\n' :: '\r' :: done) rest
    | c :: rest => if isControl c then none else basicLines? fuel (c :: done) rest

/-- The rest of a literal string over several lines. Line endings are kept as they are. -/
def literalLines? (done : List Char) : List Char → Option (String × List Char)
  | [] => none
  | '\'' :: rest =>
    match closing? '\'' done ('\'' :: rest) with
    | some r => some r
    | none => literalLines? ('\'' :: done) rest
  | '\n' :: rest => literalLines? ('\n' :: done) rest
  | '\r' :: '\n' :: rest => literalLines? ('\n' :: '\r' :: done) rest
  | c :: rest => if isControl c then none else literalLines? (c :: done) rest

/-- A text over several lines may start with a line ending that does not count. -/
def skipFirstNewline (s : List Char) : List Char := (newline? s).getD s

/-- A quoted text on one line, as a key may be. `fuel` is more than its length. -/
def quotedLine? (fuel : Nat) : List Char → Option (String × List Char)
  | '"' :: s => basic? fuel [] s
  | '\'' :: s => literal? [] s
  | _ => none

/-- A quoted text. `fuel` is more than its length. -/
def quoted? (fuel : Nat) : List Char → Option (String × List Char)
  | '"' :: '"' :: '"' :: s => basicLines? fuel [] (skipFirstNewline s)
  | '\'' :: '\'' :: '\'' :: s => literalLines? [] (skipFirstNewline s)
  | s => quotedLine? fuel s

end Folio.Toml
