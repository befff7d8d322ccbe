import Folio.Settings.Basic
import Folio.Toml.Reader

/-!
Settings from a settings file.
-/
namespace Folio.Settings

/-- Why a settings file is refused. -/
inductive FileFault where
  /-- The text cannot be read, or a field has a value of the wrong type. -/
  | unreadable
  | invalid (e : Invalid)
  deriving DecidableEq, Repr

open Toml (Value)

/-- The largest count that a file may hold. -/
def fileCount? : Value → Option Nat
  | .scalar (.whole n) => if 0 ≤ n ∧ n < UInt64.size then some n.toNat else none
  | _ => none

def fileBool? : Value → Option Bool
  | .scalar (.bool b) => some b
  | _ => none

def fileString? : Value → Option String
  | .string s => some s
  | _ => none

def modeOfName? (s : String) : Option Mode :=
  [Mode.development, Mode.production].find? (·.name == s)

def isEmptyValue : Value → Bool
  | .array [] => true
  | .table _ [] => true
  | _ => false

/-- A mode is given by its name, or as the only key of a table whose value is empty. -/
def fileMode? : Value → Option Mode
  | .string s => modeOfName? s
  | .table _ [(name, v)] => if isEmptyValue v then modeOfName? name else none
  | _ => none

/-- Sets the field of a key. Other keys are ignored. -/
def setField (s : Settings) (key : String) (v : Value) : Option Settings :=
  if key = "mode" then (fileMode? v).map fun m => { s with mode := m }
  else if key = "lang" then (fileString? v).map fun t => { s with lang := t }
  else if key = "pool_capacity" then (fileCount? v).map fun n => { s with poolCapacity := n }
  else if key = "context_pool_capacity" then
    (fileCount? v).map fun n => { s with contextPoolCapacity := n }
  else if key = "cache_capacity" then (fileCount? v).map fun n => { s with cacheCapacity := n }
  else if key = "max_computed_source_len" then
    (fileCount? v).map fun n => { s with maxComputedLength := n }
  else if key = "max_event_source_len" then
    (fileCount? v).map fun n => { s with maxEventLength := n }
  else if key = "css_value_max_len" then
    (fileCount? v).map fun n => { s with styleValueLength := n }
  else if key = "minify" then (fileBool? v).map fun b => { s with minify := some b }
  else some s

/-- Default settings overwritten by the root table of a file, then validated. -/
def fromFile (text : String) : Except FileFault Settings :=
  match (Toml.read? text).bind fun es => es.foldlM (fun s (k, v) => setField s k v) {} with
  | none => .error .unreadable
  | some s =>
    match s.validate with
    | .error e => .error (.invalid e)
    | .ok _ => .ok s

end Folio.Settings
