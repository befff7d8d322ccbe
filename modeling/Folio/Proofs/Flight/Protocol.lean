import Folio.Flight.Registry

/-!
Loads as a step system. Any number of loads, computations and other clients of the cache take their
steps in any order. A load makes its first lookup, then passes its critical section, then waits. A
computation calls its closure, ends, stores a value, leaves the registry and publishes its result.
-/
namespace Folio.Flight

universe u v

/-- Whether the work ended in an error or broke off. -/
def Outcome.isFailure {ν : Type u} {ε : Type v} : Outcome ν ε → Bool
  | .value _ => false
  | .failure _ | .crash _ => true

namespace Protocol

/-- Where a load stands. -/
inductive Position (ν : Type u) (ε : Type v) where
  | arrived
  /-- The first lookup found nothing; the critical section is still ahead. -/
  | missed
  | waiting (n : Nat)
  | returned (result : Except (Fault ε) ν)
  | abandoned

/-- How far a computation has come. -/
inductive Phase (ν : Type u) (ε : Type v) where
  | spawned
  | running
  /-- The work is over; a value is not stored yet. -/
  | ended (o : Outcome ν ε)
  | stored (v : ν)
  | unregistered (o : Outcome ν ε)
  | published (o : Outcome ν ε)

structure Load (ν : Type u) (ε : Type v) where
  key : String
  position : Position ν ε

structure Task (ν : Type u) (ε : Type v) where
  key : String
  phase : Phase ν ε

/-- Loads and computations go by their places in the lists, which only grow. -/
structure State (ν : Type u) (ε : Type v) where
  cache : Cache ν
  registry : Registry := {}
  loads : List (Load ν ε) := []
  tasks : List (Task ν ε) := []
  reports : List Report := []

/-- A step and who takes it. -/
inductive Act (ν : Type u) (ε : Type v) where
  | arrive (key : String)
  | look (c : Nat)
  | enter (c : Nat)
  | receive (c : Nat)
  | abandon (c : Nat)
  | call (n : Nat)
  | finish (n : Nat) (o : Outcome ν ε)
  | store (n : Nat)
  | unregister (n : Nat)
  | publish (n : Nat)
  | client (op : Cache.Operation ν)

variable {ν : Type u} {ε : Type v}

namespace Position

/-- Whether the load can still be abandoned. -/
def isPending : Position ν ε → Bool
  | .arrived | .missed | .waiting _ => true
  | .returned _ | .abandoned => false

end Position

namespace Phase

/-- Whether the registry entry is still to be removed. -/
def isOpen : Phase ν ε → Bool
  | .spawned | .running | .ended _ | .stored _ => true
  | .unregistered _ | .published _ => false

/-- How the work ended, if it has. -/
def outcome? : Phase ν ε → Option (Outcome ν ε)
  | .spawned | .running => none
  | .ended o | .unregistered o | .published o => some o
  | .stored v => some (.value v)

/-- The outcome of work that has nothing left to store and is still registered. -/
def settled? : Phase ν ε → Option (Outcome ν ε)
  | .stored v => some (.value v)
  | .ended (.failure e) => some (.failure e)
  | .ended (.crash reason) => some (.crash reason)
  | _ => none

theorem isOpen_of_settled {p : Phase ν ε} {o : Outcome ν ε} (h : p.settled? = some o) :
    p.isOpen = true := by
  cases p with
  | spawned | running | unregistered o | published o => simp [settled?] at h
  | ended o => rfl
  | stored v => rfl

theorem outcome_of_settled {p : Phase ν ε} {o : Outcome ν ε} (h : p.settled? = some o) :
    p.outcome? = some o := by
  cases p with
  | spawned | running | unregistered o | published o => simp [settled?] at h
  | stored v => exact h
  | ended o' => cases o' <;> simp_all [settled?, outcome?]

end Phase

namespace State

variable (s : State ν ε)

def ofCapacity (capacity : Nat) : State ν ε := { cache := .ofCapacity capacity }

def setLoad (c : Nat) (key : String) (position : Position ν ε) : State ν ε :=
  { s with loads := s.loads.set c ⟨key, position⟩ }

def setTask (n : Nat) (key : String) (phase : Phase ν ε) : State ν ε :=
  { s with tasks := s.tasks.set n ⟨key, phase⟩ }

/-- After the first lookup of a load. -/
def looked (c : Nat) (key : String) : State ν ε :=
  match s.cache.get key with
  | (some v, cache, rs) =>
    { s with cache, reports := s.reports ++ rs }.setLoad c key (.returned (.ok v))
  | (none, cache, rs) => { s with cache, reports := s.reports ++ rs }.setLoad c key .missed

/-- After the critical section of a load. -/
def entered (c : Nat) (key : String) : State ν ε :=
  let (entry, registry, rs) := Flight.enter key s.cache s.registry
  let s : State ν ε := { s with registry, reports := s.reports ++ rs }
  match entry with
  | .answered v => s.setLoad c key (.returned (.ok v))
  | .joined n => s.setLoad c key (.waiting n)
  | .started n =>
    let s : State ν ε := { s with tasks := s.tasks ++ [⟨key, .spawned⟩] }
    s.setLoad c key (.waiting n)

/-- After a computation put its value into the cache. -/
def kept (n : Nat) (key : String) (v : ν) : State ν ε :=
  let (_, cache, rs) := s.cache.set key v
  { s with cache, reports := s.reports ++ rs }.setTask n key (.stored v)

/-- After a computation left the registry. Its entry is removed by the key alone. -/
def released (n : Nat) (key : String) (o : Outcome ν ε) : State ν ε :=
  { s with registry := s.registry.finish key }.setTask n key (.unregistered o)

/-- After an operation of another client. -/
def served (op : Cache.Operation ν) : State ν ε :=
  let (_, cache, rs) := s.cache.perform op
  { s with cache, reports := s.reports ++ rs }

section Effects

variable (c n : Nat) (key : String)

@[simp] theorem looked_registry : (s.looked c key).registry = s.registry := by
  unfold looked
  split <;> rfl

@[simp] theorem looked_tasks : (s.looked c key).tasks = s.tasks := by
  unfold looked
  split <;> rfl

@[simp] theorem looked_cache : (s.looked c key).cache = (s.cache.get key).2.1 := by
  unfold looked
  split
  all_goals
    next h =>
    rw [h]
    rfl

@[simp] theorem entered_cache : (s.entered c key).cache = s.cache := by
  unfold entered
  generalize Flight.enter key s.cache s.registry = e
  obtain ⟨entry, registry, rs⟩ := e
  cases entry <;> rfl

@[simp] theorem kept_registry (v : ν) : (s.kept n key v).registry = s.registry := rfl

@[simp] theorem kept_tasks (v : ν) : (s.kept n key v).tasks = s.tasks.set n ⟨key, .stored v⟩ := rfl

@[simp] theorem kept_loads (v : ν) : (s.kept n key v).loads = s.loads := rfl

@[simp] theorem served_registry (op : Cache.Operation ν) : (s.served op).registry = s.registry :=
  rfl

@[simp] theorem served_tasks (op : Cache.Operation ν) : (s.served op).tasks = s.tasks := rfl

@[simp] theorem served_loads (op : Cache.Operation ν) : (s.served op).loads = s.loads := rfl

variable {s c n key}

/-- The first lookup returns what the cache holds. -/
theorem looked_loads : (s.looked c key).loads = s.loads.set c ⟨key,
    match s.cache.peek key with
    | some v => .returned (.ok v)
    | none => .missed⟩ := by
  cases h : s.cache.peek key with
  | none => simp [looked, setLoad, Cache.get, Lru.get, show s.cache.store.peek key = none from h]
  | some v =>
    simp [looked, setLoad, Cache.get, Lru.get, show s.cache.store.peek key = some v from h]

/-- The critical section of a load that the cache answers. -/
theorem entered_of_peek {v : ν} (h : s.cache.peek key = some v) :
    s.entered c key = s.setLoad c key (.returned (.ok v)) := by
  simp [entered, Flight.enter, h, setLoad]

/-- The critical section of a load that finds a computation of its key. -/
theorem entered_of_find {m : Nat} (h : s.cache.peek key = none)
    (hm : s.registry.find? key = some m) :
    s.entered c key = { s with
      loads := s.loads.set c ⟨key, .waiting m⟩
      reports := s.reports ++ [.tick Metric.flightJoined,
        .log .debug "joined in-flight computation" [("key", key)]] } := by
  simp [entered, Flight.enter, h, hm, setLoad]

/-- The critical section of a load that finds nothing, and starts a computation. -/
theorem entered_of_none (h : s.cache.peek key = none) (hn : s.registry.find? key = none) :
    s.entered c key = { s with
      registry := (s.registry.start key).2
      loads := s.loads.set c ⟨key, .waiting s.registry.started⟩
      tasks := s.tasks ++ [⟨key, .spawned⟩]
      reports := s.reports ++ [.log .debug "started computation" [("key", key)]] } := by
  simp [entered, Flight.enter, h, hn, setLoad, Registry.start]

variable (s c key) in
/-- What a critical section can come to. -/
theorem entered_cases :
    (∃ v, s.cache.peek key = some v ∧ s.entered c key = s.setLoad c key (.returned (.ok v))) ∨
    (∃ m, s.cache.peek key = none ∧ s.registry.find? key = some m ∧
      s.entered c key = { s with
        loads := s.loads.set c ⟨key, .waiting m⟩
        reports := s.reports ++ [.tick Metric.flightJoined,
          .log .debug "joined in-flight computation" [("key", key)]] }) ∨
    (s.cache.peek key = none ∧ s.registry.find? key = none ∧
      s.entered c key = { s with
        registry := (s.registry.start key).2
        loads := s.loads.set c ⟨key, .waiting s.registry.started⟩
        tasks := s.tasks ++ [⟨key, .spawned⟩]
        reports := s.reports ++ [.log .debug "started computation" [("key", key)]] }) := by
  cases hv : s.cache.peek key with
  | some v => exact .inl ⟨v, rfl, entered_of_peek hv⟩
  | none =>
    cases hm : s.registry.find? key with
    | some m => exact .inr (.inl ⟨m, rfl, rfl, entered_of_find hv hm⟩)
    | none => exact .inr (.inr ⟨rfl, rfl, entered_of_none hv hm⟩)

/-- A place in the list of computations holds one key and one phase. -/
theorem task_unique {key' : String} {p q : Phase ν ε} (h : s.tasks[n]? = some ⟨key, p⟩)
    (h' : s.tasks[n]? = some ⟨key', q⟩) : key = key' ∧ p = q :=
  Task.mk.inj (Option.some.inj (h.symm.trans h'))

end Effects

end State

/-- What can happen next. -/
inductive Step (s : State ν ε) : Act ν ε → State ν ε → Prop
  | arrive (key : String) :
    Step s (.arrive key) { s with loads := s.loads ++ [⟨key, .arrived⟩] }
  | look {c : Nat} {key : String} (h : s.loads[c]? = some ⟨key, .arrived⟩) :
    Step s (.look c) (s.looked c key)
  | enter {c : Nat} {key : String} (h : s.loads[c]? = some ⟨key, .missed⟩) :
    Step s (.enter c) (s.entered c key)
  | receive {c n : Nat} {key key' : String} {o : Outcome ν ε}
    (h : s.loads[c]? = some ⟨key, .waiting n⟩) (hn : s.tasks[n]? = some ⟨key', .published o⟩) :
    Step s (.receive c) (s.setLoad c key (.returned (o.result key')))
  | abandon {c : Nat} {key : String} {p : Position ν ε} (h : s.loads[c]? = some ⟨key, p⟩)
    (hp : p.isPending = true) : Step s (.abandon c) (s.setLoad c key .abandoned)
  | call {n : Nat} {key : String} (h : s.tasks[n]? = some ⟨key, .spawned⟩) :
    Step s (.call n) (s.setTask n key .running)
  | finish {n : Nat} {key : String} (h : s.tasks[n]? = some ⟨key, .running⟩)
    (o : Outcome ν ε) : Step s (.finish n o) (s.setTask n key (.ended o))
  | store {n : Nat} {key : String} {v : ν} (h : s.tasks[n]? = some ⟨key, .ended (.value v)⟩) :
    Step s (.store n) (s.kept n key v)
  | unregister {n : Nat} {key : String} {p : Phase ν ε} {o : Outcome ν ε}
    (h : s.tasks[n]? = some ⟨key, p⟩) (hp : p.settled? = some o) :
    Step s (.unregister n) (s.released n key o)
  | publish {n : Nat} {key : String} {o : Outcome ν ε}
    (h : s.tasks[n]? = some ⟨key, .unregistered o⟩) :
    Step s (.publish n) (s.setTask n key (.published o))
  | client (op : Cache.Operation ν) : Step s (.client op) (s.served op)

/-- A step with the states before and after it. -/
structure Transition (ν : Type u) (ε : Type v) where
  source : State ν ε
  act : Act ν ε
  target : State ν ε

/-- Steps one after another from a state, the last at the end. -/
inductive Run (s : State ν ε) : List (Transition ν ε) → State ν ε → Prop
  | start : Run s [] s
  | step {ts : List (Transition ν ε)} {t u : State ν ε} {a : Act ν ε} (h : Run s ts t)
    (hs : Step t a u) : Run s (ts ++ [⟨t, a, u⟩]) u

theorem step_of_mem {s t : State ν ε} {ts : List (Transition ν ε)} {τ : Transition ν ε}
    (h : Run s ts t) (hτ : τ ∈ ts) : Step τ.source τ.act τ.target := by
  induction h with
  | start => simp at hτ
  | step _ hs ih =>
    rcases List.mem_append.1 hτ with hτ | hτ
    · exact ih hτ
    · obtain rfl := List.mem_singleton.1 hτ
      exact hs

/-- The states that some order of steps leads to, whatever the capacity of the cache. -/
def Reachable (s : State ν ε) : Prop :=
  ∃ (capacity : Nat) (ts : List (Transition ν ε)), Run (.ofCapacity capacity) ts s

theorem Reachable.step {s t : State ν ε} {a : Act ν ε} (h : Reachable s) (hs : Step s a t) :
    Reachable t := by
  obtain ⟨capacity, ts, hrun⟩ := h
  exact ⟨capacity, _, hrun.step hs⟩

end Protocol

end Folio.Flight
