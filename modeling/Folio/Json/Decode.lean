import Folio.Json.Syntax
import Folio.Indexed

/-!
Reading values and records off a syntax tree. A reader is given the depth of nesting that is still
allowed; what it does not look at may break the rules for values.
-/
namespace Folio.Json

/-- The deepest nesting of arrays and objects that is read. -/
def depthLimit : Nat := 127

/-- All of a list of optional values, or nothing. -/
def allSome {α β : Type} (f : α → Option β) : List α → Option (List β)
  | [] => some []
  | a :: as =>
    match f a, allSome f as with
    | some b, some bs => some (b :: bs)
    | _, _ => none

namespace Tree

mutual

/-- The value of a tree: no lone surrogate, no number too large, and no deeper than `depth`. Members
come out sorted, and the last value of a repeated key counts. -/
def value? (depth : Nat) : Tree → Option Json
  | .null => some .null
  | .bool b => some (.bool b)
  | .number l => l.value?.map .number
  | .string s => s.map .string
  | .array items =>
    match depth with
    | 0 => none
    | depth + 1 => (itemValues? depth items).map .array
  | .object members =>
    match depth with
    | 0 => none
    | depth + 1 => (memberValues? depth members).map sorted

def itemValues? (depth : Nat) : List Tree → Option (List Json)
  | [] => some []
  | t :: ts =>
    match value? depth t, itemValues? depth ts with
    | some v, some vs => some (v :: vs)
    | _, _ => none

def memberValues? (depth : Nat) : List (Option String × Tree) → Option (List (String × Json))
  | [] => some []
  | (k, t) :: ms =>
    match k, value? depth t, memberValues? depth ms with
    | some k, some v, some vs => some ((k, v) :: vs)
    | _, _, _ => none

end

/-- Whether a tree has a value. -/
def sound (depth : Nat) (t : Tree) : Bool := (t.value? depth).isSome

def string? : Tree → Option String
  | .string s => s
  | _ => none

def bool? : Tree → Option Bool
  | .bool b => some b
  | _ => none

def items? : Tree → Option (List Tree)
  | .array items => some items
  | _ => none

/-- The members of an object, if no key holds a lone surrogate. -/
def members? : Tree → Option (List (String × Tree))
  | .object members => allSome (fun (k, t) => k.map fun k => (k, t)) members
  | _ => none

/-- A field that may be null: null and a missing field are the same. -/
def optional {α : Type} (read : Tree → Option α) : Option Tree → Option (Option α)
  | none => some none
  | some .null => some none
  | some t => (read t).map some

/-- A field that may be missing, but is not null. -/
def orElse {α : Type} (default : α) (read : Tree → Option α) : Option Tree → Option α
  | none => some default
  | some t => read t

/-- A field that must be there. -/
def required {α : Type} (read : Tree → Option α) (t : Option Tree) : Option α := t.bind read

/-- The trees of the named fields, none of which may be repeated. -/
def pickFields (members : List (String × Tree)) : List String → Option (List (Option Tree))
  | [] => some []
  | name :: names =>
    match members.filter (·.1 == name), pickFields members names with
    | [], some rest => some (none :: rest)
    | [(_, t)], some rest => some (some t :: rest)
    | _, _ => none

/-- As many fields as names, from a list that may end early. -/
def padFields : List Tree → List String → Option (List (Option Tree))
  | [], names => some (names.map fun _ => none)
  | t :: ts, _ :: names => (padFields ts names).map (some t :: ·)
  | _ :: _, [] => none

/-- The fields of a record, which is written as an object or as an array in the order of the names.
Fields of other names are skipped. -/
def record? (names : List String) : Tree → Option (List (Option Tree))
  | .array items => padFields items names
  | t => t.members?.bind (pickFields · names)

/-- A map whose values are read alike. A repeated key keeps its place and takes the last value. -/
def map? {α : Type} (read : Tree → Option α) (t : Tree) : Option (Ordered String α) :=
  t.members?.bind fun members =>
    (allSome (fun (k, t) => (read t).map fun v => (k, v)) members).map fun es =>
      (Indexed.ofList es).toOrdered

/-- The alternative that a tagged record chooses and its remaining content, which is an object with
a member of the tag's name or an array that starts with the tag. The tag may be the alternative's
number if `numbered`. -/
def tagged? (name : String) (tags : List String) (numbered : Bool) (t : Tree) :
    Option (String × Tree) :=
  let tag? : Tree → Option String := fun t =>
    match t with
    | .string (some s) => if s ∈ tags then some s else none
    | .number l =>
      if numbered then
        match l.value? with
        | some (.whole n) => if 0 ≤ n then tags[n.toNat]? else none
        | _ => none
      else none
    | _ => none
  match t with
  | .array (first :: items) => (tag? first).map fun s => (s, .array items)
  | .object members =>
    match members.filter (·.1 == some name) with
    | [(_, first)] =>
      (tag? first).map fun s => (s, .object (members.filter (·.1 != some name)))
    | _ => none
  | _ => none

end Tree

/-- Reads a JSON text as one value. -/
def read? (s : String) : Option Json := (Tree.read? s).bind (·.value? depthLimit)

end Folio.Json
