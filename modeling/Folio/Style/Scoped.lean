import Folio.Style.Value
import Folio.Text.Kebab

/-!
Scoped styles. Declarations become a list of rules, the list is hashed, and the hash names a class,
so equal rules share one class.
-/
namespace Folio.Style

open Text

/-- The FNV-1a hash of a byte sequence, of thirty-two bits. -/
def hashBytes (bytes : List UInt8) : UInt32 :=
  bytes.foldl (fun h b => (h ^^^ b.toUInt32) * 0x01000193) 0x811C9DC5

/-- The hash of the UTF-8 form of a text. -/
def hash (s : String) : UInt32 := hashBytes s.toUTF8.toList

/-- A digit of base thirty-six. -/
def digit36 (n : Nat) : Char :=
  if n < 10 then Char.ofNat ('0'.toNat + n) else Char.ofNat ('a'.toNat + (n - 10))

/-- Puts the digits of a positive number before `done`. -/
def base36From (done : List Char) (n : Nat) : List Char :=
  if n = 0 then done else base36From (digit36 (n % 36) :: done) (n / 36)
termination_by n
decreasing_by omega

/-- A number in base thirty-six. -/
def base36 (n : Nat) : List Char := if n = 0 then ['0'] else base36From [] n

/-- The class that the rules share. -/
def scopedClass (rules : String) : String := "w-" ++ String.ofList (base36 (hash rules).toNat)

/-- A scoped style: a class and its rules, written `prop:value;` one after another. -/
structure Scoped where
  className : String
  rules : String
  deriving DecidableEq, Repr

/-- The class with its rules in braces. -/
def ruleText (className rules : String) : String :=
  "." ++ className ++ "\x7b" ++ rules ++ "\x7d"

def Scoped.fragment (s : Scoped) : String := ruleText s.className s.rules

/-- One declaration; nothing if its property or its value comes to nothing. -/
def declaration (limit : Nat) (d : String × String) : String :=
  let property := kebab d.1
  let value := clean limit d.2
  if property.isEmpty || value.isEmpty then "" else property ++ ":" ++ value ++ ";"

/-- Declarations one after another. -/
def declarations (limit : Nat) (ds : List (String × String)) : String :=
  String.join (ds.map (declaration limit))

/-- The scoped style of declarations, if any of them survives. -/
def scope (limit : Nat) (ds : List (String × String)) : Option Scoped :=
  let rules := declarations limit ds
  if rules.isEmpty then none else some ⟨scopedClass rules, rules⟩

end Folio.Style
