import Folio.Ordered

/-!
A bounded store that evicts the entry whose last use is longest ago.
-/
namespace Folio

universe u

variable {ν : Type u}

/-- Entries from the least to the most recently used one. -/
structure Lru (ν : Type u) where
  capacity : Nat
  entries : List (String × ν) := []
  deriving Repr

namespace Lru

variable (s : Lru ν)

def size : Nat := s.entries.length

def isEmpty : Bool := s.entries.isEmpty

/-- Keys from the least to the most recently used one. -/
def keys : List String := s.entries.map Prod.fst

/-- The value under a key. The order of use stays as it is. -/
def peek (key : String) : Option ν := Entries.get? key s.entries

/-- Makes an entry the most recently used one. -/
def touch (key : String) (value : ν) : Lru ν :=
  { s with entries := Entries.erase key s.entries ++ [(key, value)] }

/-- The value under a key, whose entry becomes the most recently used one. -/
def get (key : String) : Option ν × Lru ν :=
  match s.peek key with
  | some value => (some value, s.touch key value)
  | none => (none, s)

/-- Stores a value as the most recently used one and returns the key of the entry that had to leave.
Replacing a value evicts nothing, and a store without capacity stores nothing. -/
def insert (key : String) (value : ν) : Option String × Lru ν :=
  if s.capacity = 0 then (none, s)
  else if (s.peek key).isSome then (none, s.touch key value)
  else if s.size < s.capacity then (none, { s with entries := s.entries ++ [(key, value)] })
  else
    match s.entries with
    | [] => (none, { s with entries := [(key, value)] })
    | oldest :: rest => (some oldest.1, { s with entries := rest ++ [(key, value)] })

/-- Drops an entry; tells whether there was one. -/
def remove (key : String) : Bool × Lru ν :=
  ((s.peek key).isSome, { s with entries := Entries.erase key s.entries })

def clear : Lru ν := { s with entries := [] }

end Lru

end Folio
