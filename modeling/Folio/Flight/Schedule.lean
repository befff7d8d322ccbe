import Folio.Flight.Crash
import Folio.Flight.Registry

/-!
A scheduler for loads on one thread, first in first out. Callers and computations wait in a queue; a
caller that starts a computation puts it at the end, and a computation runs to its end or to its
gate in one go.
-/
namespace Folio.Flight

/-- What a caller would compute: the outcome, and perhaps a gate that must be opened before it. -/
structure Plan where
  outcome : Outcome String String
  gate : Option Nat
  deriving Repr

/-- Where a caller stands. -/
inductive Stage where
  | ready
  | waiting (computation : Nat)
  | answered (value : String)
  | abandoned
  deriving DecidableEq, Repr

structure Caller where
  key : String
  plan : Plan
  stage : Stage
  deriving Repr

/-- A computation; its result is missing until it ends. -/
structure Computation where
  key : String
  plan : Plan
  entered : Bool := false
  result : Option (Except (Fault String) String) := none

/-- Something that can run. -/
inductive Job where
  | caller (n : Nat)
  | computation (n : Nat)
  deriving DecidableEq, Repr

structure Schedule where
  cache : Cache String
  registry : Registry := {}
  callers : List Caller := []
  computations : List Computation := []
  queue : List Job := []
  /-- Callers and gates that clients still hold, by the name of the task. -/
  tasks : List (String × Nat) := []
  gates : List (String × Nat) := []
  gateCount : Nat := 0
  opened : List Nat := []
  calls : Nat := 0

/-- What a client sees of a task. -/
inductive Sight where
  | unknown
  | pending
  | abandoned
  | finished (result : Except (Fault String) String)

namespace Schedule

variable (s : Schedule)

def setStage (n : Nat) (stage : Stage) : Schedule :=
  { s with callers := s.callers.modify n fun c => { c with stage } }

def ofCapacity (capacity : Nat) : Schedule := { cache := .ofCapacity capacity }

/-- Starts a task that loads a key. It waits in the queue. -/
def start (task key : String) (outcome : Outcome String String) (gated : Bool) : Schedule :=
  let n := s.callers.length
  let plan : Plan := ⟨outcome, if gated then some s.gateCount else none⟩
  { s with
    callers := s.callers ++ [⟨key, plan, .ready⟩]
    queue := s.queue ++ [.caller n]
    tasks := Entries.put task n s.tasks
    gates := if gated then Entries.put task s.gateCount s.gates else s.gates
    gateCount := if gated then s.gateCount + 1 else s.gateCount }

/-- A caller's turn: both lookups, and perhaps the start of a computation. -/
def runCaller (n : Nat) (c : Caller) : Schedule × List Report :=
  match s.cache.get c.key with
  | (some v, cache, rs) => (({ s with cache }).setStage n (.answered v), rs)
  | (none, cache, rs) =>
    let (entry, registry, rs') := enter c.key cache s.registry
    let s : Schedule := { s with cache, registry }
    match entry with
    | .answered v => (s.setStage n (.answered v), rs ++ rs')
    | .joined k => (s.setStage n (.waiting k), rs ++ rs')
    | .started k =>
      let s : Schedule := { s with
        computations := s.computations ++ [{ key := c.key, plan := c.plan }]
        queue := s.queue ++ [.computation k] }
      (s.setStage n (.waiting k), rs ++ rs')

def isOpen : Option Nat → Bool
  | none => true
  | some gate => gate ∈ s.opened

/-- A computation's turn: its first turn counts a call, and it ends unless its gate is closed. -/
def runComputation (k : Nat) (c : Computation) : Schedule × List Report :=
  let s := if c.entered then s else { s with calls := s.calls + 1 }
  if s.isOpen c.plan.gate then
    let (cache, registry, rs) := complete c.key c.plan.outcome s.cache s.registry
    let ended := { c with entered := true, result := some (c.plan.outcome.result c.key) }
    ({ s with cache, registry, computations := s.computations.set k ended }, rs)
  else ({ s with computations := s.computations.set k { c with entered := true } }, [])

/-- The turn of a job. An abandoned caller does nothing, and a computation ends only once. -/
def run : Job → Schedule × List Report
  | .caller n =>
    match s.callers[n]? with
    | some c => if c.stage = .ready then s.runCaller n c else (s, [])
    | none => (s, [])
  | .computation k =>
    match s.computations[k]? with
    | some c => if c.result.isNone then s.runComputation k c else (s, [])
    | none => (s, [])

/-- Runs at most `count` jobs in the order of the queue. -/
def runFor : Nat → Schedule → Schedule × List Report
  | 0, s => (s, [])
  | count + 1, s =>
    match s.queue with
    | [] => (s, [])
    | job :: queue =>
      let (s, rs) := run { s with queue } job
      let (s, rs') := runFor count s
      (s, rs ++ rs')

/-- Lets all tasks run until nothing can move. Each caller in the queue adds at most one job. -/
def settle : Schedule × List Report := runFor (2 * s.queue.length) s

/-- The computations that wait for a gate. -/
def waitingFor (gate : Nat) : List Job :=
  (s.computations.zipIdx.filter fun (c, _) =>
    c.entered && c.result.isNone && c.plan.gate == some gate).map fun (_, k) => .computation k

/-- Opens the gate of a task, if it has one. The gate stays open. -/
def openGate (task : String) : Schedule :=
  match Entries.get? task s.gates with
  | none => s
  | some gate => { s with opened := gate :: s.opened, queue := s.queue ++ s.waitingFor gate }

/-- What has become of a caller. -/
def sight (n : Nat) : Sight :=
  match s.callers[n]? with
  | none => .unknown
  | some c =>
    match c.stage with
    | .ready => .pending
    | .answered v => .finished (.ok v)
    | .abandoned => .abandoned
    | .waiting k =>
      match (s.computations[k]?).bind (·.result) with
      | some r => .finished r
      | none => .pending

/-- Looks at a task. One that is over is forgotten. -/
def join (task : String) : Sight × Schedule :=
  match Entries.get? task s.tasks with
  | none => (.unknown, s)
  | some n =>
    match s.sight n with
    | .pending => (.pending, s)
    | sight => (sight, { s with tasks := Entries.erase task s.tasks })

/-- Gives up on a task that is not over. A computation that it started goes on. -/
def abandon (task : String) : Schedule :=
  match Entries.get? task s.tasks with
  | none => s
  | some n =>
    match s.sight n with
    | .pending => s.setStage n .abandoned
    | _ => s

end Schedule

end Folio.Flight
