import Folio.Cache.Response

/-!
Single flight: at most one computation per key is under way, and callers that miss the cache while
one is under way share its result. A load makes a first lookup and then one critical section, in
which it is answered by the cache, joins the computation of its key, or starts one. A computation
ends by storing its value, leaving the registry and publishing its result, in this order.
-/
namespace Folio.Flight

universe u v

variable {ν : Type u} {ε : Type v}

/-- How the work of a computation ends. -/
inductive Outcome (ν : Type u) (ε : Type v) where
  | value (v : ν)
  | failure (e : ε)
  | crash (reason : String)
  deriving Repr

/-- Why a load has no value. -/
inductive Fault (ε : Type v) where
  | failed (e : ε)
  | aborted (key reason : String)
  deriving DecidableEq, Repr

def Fault.message (text : ε → String) : Fault ε → String
  | .failed e => text e
  | .aborted key reason => s!"Computation for '{key}' did not complete: {reason}"

/-- What the callers of a computation for a key get. -/
def Outcome.result (key : String) : Outcome ν ε → Except (Fault ε) ν
  | .value v => .ok v
  | .failure e => .error (.failed e)
  | .crash reason => .error (.aborted key reason)

/-- The computations under way, as pairs of key and number, and how many were started so far. -/
structure Registry where
  active : List (String × Nat) := []
  started : Nat := 0
  deriving DecidableEq, Repr

namespace Registry

variable (r : Registry)

/-- The number of computations under way. -/
def size : Nat := r.active.length

/-- The computation that is under way for a key. -/
def find? (key : String) : Option Nat := Entries.get? key r.active

def contains (key : String) : Bool := (r.find? key).isSome

/-- Registers a new computation for a key. -/
def start (key : String) : Nat × Registry :=
  (r.started, ⟨Entries.put key r.started r.active, r.started + 1⟩)

/-- Removes the computation of a key. -/
def finish (key : String) : Registry := { r with active := Entries.erase key r.active }

/-- A short description. -/
def summary : String := "SingleFlight \x7b in_flight: " ++ toString r.size ++ " \x7d"

end Registry

/-- The outcome of a load's critical section. -/
inductive Entry (ν : Type u) where
  | answered (v : ν)
  | joined (computation : Nat)
  | started (computation : Nat)
  deriving Repr

/-- The critical section of a load whose first lookup found nothing. -/
def enter (key : String) (cache : Cache ν) (r : Registry) : Entry ν × Registry × List Report :=
  match cache.peek key with
  | some v => (.answered v, r, [])
  | none =>
    match r.find? key with
    | some n =>
      (.joined n, r,
        [.tick Metric.flightJoined, .log .debug "joined in-flight computation" [("key", key)]])
    | none =>
      let (n, r) := r.start key
      (.started n, r, [.log .debug "started computation" [("key", key)]])

/-- The end of a computation: a value is stored, and in any case the registry entry is removed. -/
def complete (key : String) (outcome : Outcome ν ε) (cache : Cache ν) (r : Registry) :
    Cache ν × Registry × List Report :=
  match outcome with
  | .value v =>
    let (_, cache, rs) := cache.set key v
    (cache, r.finish key, rs)
  | .failure _ => (cache, r.finish key, [])
  | .crash _ => (cache, r.finish key, [])

end Folio.Flight
