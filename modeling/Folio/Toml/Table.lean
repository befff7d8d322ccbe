import Folio.Toml.Scalar

/-!
Tables of settings files and the rules by which headers and dotted keys may extend them.
-/
namespace Folio.Toml

/-- How a table came to be. -/
inductive Origin where
  /-- By its own header, or as the root. -/
  | header
  /-- As a parent in the header of another table. -/
  | parent
  /-- By a dotted key. -/
  | dotted
  /-- Written as a value. -/
  | inline
  /-- By a dotted key inside a table written as a value. -/
  | inlineDotted
  deriving DecidableEq, Repr

inductive Value where
  | string (s : String)
  | scalar (s : Scalar)
  | array (items : List Value)
  /-- The tables of repeated double-bracket headers, the last first. -/
  | tables (items : List (List (String × Value)))
  | table (origin : Origin) (entries : List (String × Value))
  deriving Inhabited

abbrev Entries := List (String × Value)

def find? (k : String) (es : Entries) : Option Value := (es.find? (·.1 == k)).map (·.2)

/-- Replaces the value of a key that is there, or adds it at the end. -/
def set (k : String) (v : Value) : Entries → Entries
  | [] => [(k, v)]
  | (k', v') :: es => if k' = k then (k, v) :: es else (k', v') :: set k v es

def remove (k : String) (es : Entries) : Entries := es.filter (·.1 != k)

/-- Changes the table at the end of a path of parents. Parents that are missing are added; a parent
must be a table that is still open, or a list of tables, whose last one is meant. -/
def underHeader (f : Entries → Option Entries) : List String → Entries → Option Entries
  | [], es => f es
  | k :: path, es =>
    match find? k es with
    | none => (underHeader f path []).map fun t => set k (.table .parent t) es
    | some (.table origin t) =>
      if origin = .inline ∨ origin = .inlineDotted then none
      else (underHeader f path t).map fun t => set k (.table origin t) es
    | some (.tables (t :: ts)) =>
      (underHeader f path t).map fun t => set k (.tables (t :: ts)) es
    | some _ => none

/-- Whether dotted keys may pass through a table on their way: they made it, or it is known only as
a parent. -/
def Origin.isPassable (origin : Origin) : Origin → Bool
  | .parent => true
  | o => o == origin

/-- Puts a value under a dotted key. On its way the key may pass through tables that dotted keys
made, parents, and the last table of a list; the table that takes the value must be open to it: the
one the key started from, or one that dotted keys made. -/
def putDotted (origin : Origin) (v : Value) : Bool → List String → Entries → Option Entries
  | _, [], _ => none
  | isOpen, [k], es => if isOpen && (find? k es).isNone then some (set k v es) else none
  | _, k :: path, es =>
    match find? k es with
    | none => (putDotted origin v true path []).map fun t => set k (.table origin t) es
    | some (.table o t) =>
      if origin.isPassable o then
        (putDotted origin v (o == origin) path t).map fun t => set k (.table o t) es
      else none
    | some (.tables (t :: ts)) =>
      (putDotted origin v false path t).map fun t => set k (.tables (t :: ts)) es
    | some _ => none

/-- Opens the table of a header in its parent: it must be new, or known only as a parent. -/
def openTable (k : String) (es : Entries) : Option Entries :=
  match find? k es with
  | none => some (set k (.table .header []) es)
  | some (.table .parent t) => some (set k (.table .header t) (remove k es))
  | some _ => none

/-- Adds a table to the list of a double-bracket header in its parent. -/
def addTable (k : String) (es : Entries) : Option Entries :=
  match find? k es with
  | none => some (set k (.tables [[]]) es)
  | some (.tables ts) => some (set k (.tables ([] :: ts)) es)
  | some _ => none

end Folio.Toml
