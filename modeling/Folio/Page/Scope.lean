import Folio.Indexed
import Folio.Json.Value
import Folio.Page.Ids
import Folio.Settings.Basic
import Folio.Telemetry.Report

/-!
What a document shares with the nodes it made: the settings, the source of ids and the states
captured so far, by the id of the node that captured them.
-/
namespace Folio

/-- Captured states by node id, in the order of capture. -/
abbrev States := Indexed String Json

/-- An operation that broke off, and the message it left. -/
structure Crash where
  message : String
  deriving DecidableEq, Repr

/-- Moves the value of one id to another, in place. If the other id has a value too, that entry
moves here and takes the value; the operation breaks off when the moved entry was the last one. -/
def States.moveKey (old new : String) (m : Ordered String Json) :
    Except Crash Unit × Ordered String Json :=
  match m.index? old, m.get? old with
  | some position, some value =>
    let rest := m.erase old
    if rest.contains new && rest.size ≤ position then
      let message := s!"index out of bounds: the len is {rest.size} but the index is {position}"
      (.error ⟨message⟩, rest)
    else (.ok (), rest.place position new value)
  | _, _ => (.ok (), m)

/-- Moves the state of one id to another. -/
def States.rename (old new : String) (states : States) : Except Crash Unit × States :=
  let (outcome, m) := moveKey old new states.toOrdered
  (outcome, .ofOrdered m)

/-- The shared part of a document, as a builder call sees and changes it. The log is newest first.
-/
structure Scope where
  settings : Settings := {}
  ids : Ids
  states : States := .empty
  log : List Event := []

namespace Scope

variable (s : Scope)

/-- What a node without document finds: default settings and ids of a run of its own. -/
def detached (run : Nat) : Scope := { ids := .ofRun run }

def warn (message : String) (fields : List (String × String) := []) : Scope :=
  { s with log := ⟨.warn, message, fields⟩ :: s.log }

/-- A warning for authors: it is left out in production. -/
def advise (message : String) (fields : List (String × String) := []) : Scope :=
  if s.settings.isProduction then s else s.warn message fields

/-- Issues the next id. -/
def nextId : String × Scope :=
  let (id, ids) := s.ids.next
  (id, { s with ids })

end Scope

end Folio
