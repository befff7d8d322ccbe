import Folio.Json.Number

/-!
JSON values and their compact text.
-/
namespace Folio

/-- A JSON value. The members of an object stand in the order in which they are written. -/
inductive Json where
  | null
  | bool (b : Bool)
  | number (n : Json.Number)
  | string (s : String)
  | array (items : List Json)
  | object (members : List (String × Json))
  deriving Repr, Inhabited

namespace Json

def ofNat (n : Nat) : Json := .number (.whole n)

def ofInt (n : Int) : Json := .number (.whole n)

/-- Lower-case hexadecimal digits, at least two. -/
def twoHex (n : Nat) : List Char :=
  let ds := Nat.toDigits 16 n
  List.replicate (2 - ds.length) '0' ++ ds

/-- A character inside a string literal. -/
def escapeChar (c : Char) : List Char :=
  if c = '"' then ['\\', '"']
  else if c = '\\' then ['\\', '\\']
  else if c = '\x08' then ['\\', 'b']
  else if c = '\x0c' then ['\\', 'f']
  else if c = '\n' then ['\\', 'n']
  else if c = '\r' then ['\\', 'r']
  else if c = '\t' then ['\\', 't']
  else if c.toNat < 0x20 then ['\\', 'u', '0', '0'] ++ twoHex c.toNat
  else [c]

/-- A string literal. -/
def stringChars (s : String) : List Char := '"' :: s.toList.flatMap escapeChar ++ ['"']

/-- A comma before every item but the first. -/
def separate (isFirst : Bool) (done : List Char) : List Char :=
  if isFirst then done else ',' :: done

mutual

/-- Writes the compact text of a value after `done`, which is reversed. -/
def write (done : List Char) : Json → List Char
  | .null => 'l' :: 'l' :: 'u' :: 'n' :: done
  | .bool true => 'e' :: 'u' :: 'r' :: 't' :: done
  | .bool false => 'e' :: 's' :: 'l' :: 'a' :: 'f' :: done
  | .number n => n.chars.reverseAux done
  | .string s => (stringChars s).reverseAux done
  | .array items => ']' :: writeItems true ('[' :: done) items
  | .object members => '\x7d' :: writeMembers true ('\x7b' :: done) members

def writeItems (isFirst : Bool) (done : List Char) : List Json → List Char
  | [] => done
  | v :: vs => writeItems false (v.write (separate isFirst done)) vs

def writeMembers (isFirst : Bool) (done : List Char) : List (String × Json) → List Char
  | [] => done
  | (k, v) :: ms =>
    writeMembers false (v.write (':' :: (stringChars k).reverseAux (separate isFirst done))) ms

end

/-- The compact text of a value: no space, and only what must be escaped is. -/
def text (v : Json) : String := String.ofList (v.write []).reverse

mutual

/-- Equality of values, under which the two zeros are equal. -/
def same : Json → Json → Bool
  | .null, .null => true
  | .bool a, .bool b => a == b
  | .number m, .number n => m.same n
  | .string s, .string t => s == t
  | .array xs, .array ys => sameItems xs ys
  | .object xs, .object ys => sameMembers xs ys
  | _, _ => false

def sameItems : List Json → List Json → Bool
  | [], [] => true
  | x :: xs, y :: ys => same x y && sameItems xs ys
  | _, _ => false

def sameMembers : List (String × Json) → List (String × Json) → Bool
  | [], [] => true
  | (j, x) :: xs, (k, y) :: ys => j == k && same x y && sameMembers xs ys
  | _, _ => false

end

/-- Inserts a member into a list sorted by key; the value of a key that is there is replaced. -/
def insertMember (k : String) (v : Json) : List (String × Json) → List (String × Json)
  | [] => [(k, v)]
  | (k', v') :: ms =>
    if k = k' then (k, v) :: ms
    else if k < k' then (k, v) :: (k', v') :: ms
    else (k', v') :: insertMember k v ms

/-- An object whose members are sorted by key; the last value given for a key counts. -/
def sorted (members : List (String × Json)) : Json :=
  .object (members.foldl (fun ms m => insertMember m.1 m.2 ms) [])

/-- The value of a member. -/
def member? (k : String) : Json → Option Json
  | .object ms => (ms.find? (·.1 == k)).map (·.2)
  | _ => none

end Json

end Folio
