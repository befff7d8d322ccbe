import Folio.Json.Value

/-!
Reading JSON text into a syntax tree. A text is cut into tokens character by character, and the
tokens build a tree on an explicit stack, so depth is no concern here. The tree keeps what a reader
of values may refuse later: repeated keys, strings with lone surrogates, numbers of any size, and
any depth.
-/
namespace Folio.Json

inductive Token where
  | leftBracket
  | rightBracket
  | leftBrace
  | rightBrace
  | comma
  | colon
  | word (w : List Char)
  | number (l : Literal)
  | string (s : Option String)
  deriving DecidableEq, Repr

namespace Token

/-- Where the cutting stands inside a string literal. -/
inductive Escape where
  | plain
  | backslash
  /-- Inside a `\u` escape, with the value and count of the digits read. -/
  | unit (value count : Nat)
  deriving DecidableEq, Repr

/-- Where the cutting stands between two characters. Lists are reversed. -/
inductive Mode where
  | between
  | word (w : List Char)
  | number (w : List Char)
  /-- Inside a string: its characters, a high surrogate that waits for its partner, and the place. A
  string with a lone surrogate has no characters. -/
  | string (cs : Option (List Char)) (high : Option Nat) (place : Escape)
  deriving DecidableEq, Repr

/-- The cutting of a text so far; tokens are reversed. -/
structure Cut where
  tokens : List Token
  mode : Mode

def punctuation? : Char → Option Token
  | '[' => some .leftBracket
  | ']' => some .rightBracket
  | '\x7b' => some .leftBrace
  | '\x7d' => some .rightBrace
  | ',' => some .comma
  | ':' => some .colon
  | _ => none

def isSpace (c : Char) : Bool := c == ' ' || c == '\t' || c == '\n' || c == '\r'

def isNumberChar (c : Char) : Bool :=
  c.isDigit || c == '-' || c == '+' || c == '.' || c == 'e' || c == 'E'

/-- A character between tokens. -/
def start (tokens : List Token) (c : Char) : Option Cut :=
  if isSpace c then some ⟨tokens, .between⟩
  else if c = '"' then some ⟨tokens, .string (some []) none .plain⟩
  else if c.isDigit ∨ c = '-' then some ⟨tokens, .number [c]⟩
  else if c.isAlpha then some ⟨tokens, .word [c]⟩
  else (punctuation? c).map fun t => ⟨t :: tokens, .between⟩

def hexDigit? (c : Char) : Option Nat :=
  if c.isDigit then some (c.toNat - '0'.toNat)
  else if 'a' ≤ c ∧ c ≤ 'f' then some (c.toNat - 'a'.toNat + 10)
  else if 'A' ≤ c ∧ c ≤ 'F' then some (c.toNat - 'A'.toNat + 10)
  else none

def simpleEscape? : Char → Option Char
  | '"' => some '"'
  | '\\' => some '\\'
  | '/' => some '/'
  | 'b' => some '\x08'
  | 'f' => some '\x0c'
  | 'n' => some '\n'
  | 'r' => some '\r'
  | 't' => some '\t'
  | _ => none

/-- A whole character of a string: it must not follow a high surrogate. -/
def addChar (cs : Option (List Char)) (high : Option Nat) (c : Char) : Option (List Char) :=
  match high with
  | none => cs.map (c :: ·)
  | some _ => none

/-- A complete `\u` escape: a character, a high surrogate that waits, or the partner of one. -/
def addUnit (cs : Option (List Char)) (high : Option Nat) (u : Nat) : Mode :=
  match high with
  | some h =>
    if 0xDC00 ≤ u ∧ u ≤ 0xDFFF then
      let n := 0x10000 + (h - 0xD800) * 0x400 + (u - 0xDC00)
      .string (cs.map (Char.ofNat n :: ·)) none .plain
    else .string none none .plain
  | none =>
    if 0xD800 ≤ u ∧ u ≤ 0xDBFF then .string cs (some u) .plain
    else if 0xDC00 ≤ u ∧ u ≤ 0xDFFF then .string none none .plain
    else .string (cs.map (Char.ofNat u :: ·)) none .plain

/-- Reads one character. -/
def feed (cut : Cut) (c : Char) : Option Cut :=
  match cut.mode with
  | .between => start cut.tokens c
  | .word w =>
    if c.isAlpha then some { cut with mode := .word (c :: w) }
    else start (.word w.reverse :: cut.tokens) c
  | .number w =>
    if isNumberChar c then some { cut with mode := .number (c :: w) }
    else (Literal.read? w.reverse).bind fun l => start (.number l :: cut.tokens) c
  | .string cs high .plain =>
    if c = '"' then
      let s := if high.isSome then none else cs.map fun cs => String.ofList cs.reverse
      some ⟨.string s :: cut.tokens, .between⟩
    else if c = '\\' then some { cut with mode := .string cs high .backslash }
    else if c.toNat < 0x20 then none
    else some { cut with mode := .string (addChar cs high c) none .plain }
  | .string cs high .backslash =>
    if c = 'u' then some { cut with mode := .string cs high (.unit 0 0) }
    else (simpleEscape? c).map fun d =>
      { cut with mode := .string (addChar cs high d) none .plain }
  | .string cs high (.unit value count) =>
    (hexDigit? c).map fun d =>
      let value := value * 16 + d
      if count = 3 then { cut with mode := addUnit cs high value }
      else { cut with mode := .string cs high (.unit value (count + 1)) }

/-- Closes the last token. -/
def finish (cut : Cut) : Option (List Token) :=
  match cut.mode with
  | .between => some cut.tokens.reverse
  | .word w => some (.word w.reverse :: cut.tokens).reverse
  | .number w => (Literal.read? w.reverse).map fun l => (.number l :: cut.tokens).reverse
  | .string .. => none

/-- The tokens of a text. -/
def ofChars? (s : List Char) : Option (List Token) :=
  (s.foldlM feed ⟨[], .between⟩).bind finish

end Token

/-- The syntax tree of a JSON text. A string is missing when it holds a lone surrogate. -/
inductive Tree where
  | null
  | bool (b : Bool)
  | number (l : Literal)
  | string (s : Option String)
  | array (items : List Tree)
  | object (members : List (Option String × Tree))
  deriving Repr, Inhabited

namespace Tree

/-- An open array or object; what it holds so far is reversed. -/
inductive Frame where
  | array (items : List Tree)
  | object (members : List (Option String × Tree))
  /-- An object with a key that waits for its value. -/
  | member (members : List (Option String × Tree)) (key : Option String)

/-- What must come next. -/
inductive Need where
  /-- A value, or a closing bracket if the array is still empty. -/
  | value (closable : Bool)
  /-- A key, or a closing brace if the object is still empty. -/
  | key (closable : Bool)
  | colon
  /-- A comma or the closing of the innermost frame; nothing more if no frame is open. -/
  | next
  deriving DecidableEq

/-- A tree under construction: the open frames, what is needed, and the finished value. -/
structure Growth where
  frames : List Frame
  need : Need
  result : Option Tree

/-- Puts a finished value into the innermost frame. -/
def complete (frames : List Frame) (v : Tree) : Growth :=
  match frames with
  | .array items :: rest => ⟨.array (v :: items) :: rest, .next, none⟩
  | .member members k :: rest => ⟨.object ((k, v) :: members) :: rest, .next, none⟩
  | .object members :: rest => ⟨.object members :: rest, .next, none⟩
  | [] => ⟨[], .next, some v⟩

/-- A token where a value is needed. -/
def beginValue (frames : List Frame) : Token → Option Growth
  | .leftBracket => some ⟨.array [] :: frames, .value true, none⟩
  | .leftBrace => some ⟨.object [] :: frames, .key true, none⟩
  | .number l => some (complete frames (.number l))
  | .string s => some (complete frames (.string s))
  | .word w =>
    if w = ['n', 'u', 'l', 'l'] then some (complete frames .null)
    else if w = ['t', 'r', 'u', 'e'] then some (complete frames (.bool true))
    else if w = ['f', 'a', 'l', 's', 'e'] then some (complete frames (.bool false))
    else none
  | _ => none

/-- Reads one token. -/
def grow (g : Growth) (t : Token) : Option Growth :=
  match g.need, t, g.frames with
  | .value true, .rightBracket, .array _ :: frames => some (complete frames (.array []))
  | .value _, t, frames => beginValue frames t
  | .key true, .rightBrace, .object _ :: frames => some (complete frames (.object []))
  | .key _, .string k, .object members :: frames => some ⟨.member members k :: frames, .colon, none⟩
  | .colon, .colon, frames => some ⟨frames, .value false, none⟩
  | .next, .comma, .array items :: frames => some ⟨.array items :: frames, .value false, none⟩
  | .next, .comma, .object members :: frames => some ⟨.object members :: frames, .key false, none⟩
  | .next, .rightBracket, .array items :: frames =>
    some (complete frames (.array items.reverse))
  | .next, .rightBrace, .object members :: frames =>
    some (complete frames (.object members.reverse))
  | _, _, _ => none

def ofTokens? (ts : List Token) : Option Tree :=
  (ts.foldlM grow ⟨[], .value false, none⟩).bind (·.result)

/-- Reads a whole JSON text. -/
def read? (s : String) : Option Tree := (Token.ofChars? s.toList).bind ofTokens?

end Tree

end Folio.Json
