import Folio.Toml.Quoted
import Folio.Toml.Table

/-!
Reading a whole settings file.
-/
namespace Folio.Toml

def skipSpaces (s : List Char) : List Char := s.dropWhile isInlineSpace

/-- Skips blanks, comments and line endings. `inComment` says whether a comment is open, in which no
control character may stand. -/
def skipLines? (inComment : Bool) : List Char → Option (List Char)
  | [] => some []
  | '\n' :: s => skipLines? false s
  | '\r' :: '\n' :: s => skipLines? false s
  | c :: s =>
    if inComment then (if isControl c then none else skipLines? true s)
    else if isInlineSpace c then skipLines? false s
    else if c = '#' then skipLines? true s
    else some (c :: s)

/-- The end of a line: blanks, perhaps a comment, and a line ending unless the file ends. -/
def endLine? (inComment : Bool) : List Char → Option (List Char)
  | [] => some []
  | '\n' :: s => some s
  | '\r' :: '\n' :: s => some s
  | c :: s =>
    if inComment then (if isControl c then none else endLine? true s)
    else if isInlineSpace c then endLine? false s
    else if c = '#' then endLine? true s
    else none

def isBareKeyChar (c : Char) : Bool := c.isAlphanum || c == '_' || c == '-'

def simpleKey? (fuel : Nat) (s : List Char) : Option (String × List Char) :=
  match s with
  | '"' :: _ => quotedLine? fuel s
  | '\'' :: _ => quotedLine? fuel s
  | _ =>
    let k := s.takeWhile isBareKeyChar
    if k.isEmpty then none else some (String.ofList k, s.dropWhile isBareKeyChar)

/-- Simple keys joined by points, blanks around them allowed. -/
def simpleKeys? : Nat → List Char → Option (List String × List Char)
  | 0, _ => none
  | fuel + 1, s =>
    (simpleKey? fuel (skipSpaces s)).bind fun (k, s) =>
      match skipSpaces s with
      | '.' :: s => (simpleKeys? fuel s).map fun (ks, s) => (k :: ks, s)
      | s => some ([k], s)

/-- The deepest nesting of arrays and tables within a value, and the longest path of a key. -/
def depthLimit : Nat := 80

/-- A key: a path of simple keys. `fuel` is more than its length. -/
def key? (fuel : Nat) (s : List Char) : Option (List String × List Char) :=
  (simpleKeys? fuel s).filter fun (path, _) => path.length ≤ depthLimit

def isScalarChar (c : Char) : Bool :=
  c.isAlphanum || c == '+' || c == '-' || c == '_' || c == '.' || c == ':'

/-- An unquoted scalar. A date may be followed by a blank and a time. -/
def unquoted? (s : List Char) : Option (Scalar × List Char) :=
  let head := s.takeWhile isScalarChar
  let rest := s.dropWhile isScalarChar
  let withTime := match date? head, rest with
    | some [], ' ' :: c :: more =>
      if c.isDigit then
        some (head ++ ' ' :: (c :: more).takeWhile isScalarChar, (c :: more).dropWhile isScalarChar)
      else none
    | _, _ => none
  let (text, rest) := withTime.getD (head, rest)
  (scalar? text).map fun v => (v, rest)

mutual

/-- A value. `fuel` bounds the work, `depth` the nesting that is left. -/
def value? : Nat → Nat → List Char → Option (Value × List Char)
  | 0, _, _ => none
  | fuel + 1, depth, s =>
    match s with
    | '"' :: _ => (quoted? fuel s).map fun (t, s) => (.string t, s)
    | '\'' :: _ => (quoted? fuel s).map fun (t, s) => (.string t, s)
    | '[' :: s =>
      match depth with
      | 0 => none
      | depth + 1 => (items? fuel depth [] s).map fun (vs, s) => (.array vs, s)
    | '\x7b' :: s =>
      match depth with
      | 0 => none
      | depth + 1 => (members? fuel depth [] s).map fun (es, s) => (.table .inline es, s)
    | s => (unquoted? s).map fun (v, s) => (.scalar v, s)

/-- Items up to the closing bracket; a comma may follow the last one. -/
def items? : Nat → Nat → List Value → List Char → Option (List Value × List Char)
  | 0, _, _, _ => none
  | fuel + 1, depth, done, s =>
    match skipLines? false s with
    | none => none
    | some (']' :: s) => some (done.reverse, s)
    | some s =>
      match value? fuel depth s with
      | none => none
      | some (v, s) =>
        match skipLines? false s with
        | some (',' :: s) => items? fuel depth (v :: done) s
        | some (']' :: s) => some ((v :: done).reverse, s)
        | _ => none

/-- Members up to the closing brace; a comma may follow the last one. Lines may end anywhere but
inside a key. -/
def members? : Nat → Nat → Entries → List Char → Option (Entries × List Char)
  | 0, _, _, _ => none
  | fuel + 1, depth, es, s =>
    match skipLines? false s with
    | none => none
    | some ('\x7d' :: s) => some (es, s)
    | some s =>
      match key? fuel s with
      | none => none
      | some (path, s) =>
        match skipLines? false s with
        | some ('=' :: s) =>
          match (skipLines? false s).bind (value? fuel depth) with
          | none => none
          | some (v, s) =>
            match putDotted .inlineDotted v true path es, skipLines? false s with
            | some es, some (',' :: s) => members? fuel depth es s
            | some es, some ('\x7d' :: s) => some (es, s)
            | _, _ => none
        | _ => none

end

/-- A header in single or double brackets: its path and whether it adds to a list. -/
def header? (fuel : Nat) (s : List Char) : Option (List String × Bool × List Char) :=
  match s with
  | '[' :: '[' :: s =>
    match key? fuel s with
    | some (path, ']' :: ']' :: s) => some (path, true, s)
    | _ => none
  | '[' :: s =>
    match key? fuel s with
    | some (path, ']' :: s) => some (path, false, s)
    | _ => none
  | _ => none

/-- The root table so far and the path of the table that key lines go to. -/
structure Document where
  root : Entries
  current : List String

/-- Opens the table of a header. -/
def Document.enter (d : Document) (path : List String) (many : Bool) : Option Document :=
  match path.getLast? with
  | none => none
  | some k =>
    let opened := underHeader (if many then addTable k else openTable k) path.dropLast d.root
    opened.map fun root => ⟨root, path⟩

/-- Puts the value of a key line into the current table. -/
def Document.put (d : Document) (path : List String) (v : Value) : Option Document :=
  (underHeader (putDotted .dotted v true path) d.current d.root).map fun root => { d with root }

/-- Reads line after line. -/
def lines? : Nat → Document → List Char → Option Document
  | 0, _, _ => none
  | fuel + 1, d, s =>
    match skipLines? false s with
    | none => none
    | some [] => some d
    | some ('[' :: s) =>
      match header? fuel ('[' :: s) with
      | none => none
      | some (path, many, s) =>
        match d.enter path many, endLine? false s with
        | some d, some s => lines? fuel d s
        | _, _ => none
    | some s =>
      match key? fuel s with
      | some (path, '=' :: s) =>
        match value? (2 * fuel) depthLimit (skipSpaces s) with
        | none => none
        | some (v, s) =>
          match d.put path v, endLine? false s with
          | some d, some s => lines? fuel d s
          | _, _ => none
      | _ => none

/-- The root table of a settings file. -/
def read? (text : String) : Option Entries :=
  let s := text.toList
  let s := match s with
    | '\uFEFF' :: s => s
    | s => s
  (lines? (s.length + 1) ⟨[], []⟩ s).map (·.root)

end Folio.Toml
