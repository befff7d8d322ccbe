import Folio.Flight.Schedule
import Folio.Proofs.Flight.Exclusion

/-! The scheduler only does what the step system allows: what is under way in it is a reachable
state, and each of its operations is a few steps. -/
namespace Folio.Flight

universe u v

open Protocol (State Step Reachable)

namespace Protocol

variable {ν : Type u} {ε : Type v} {s : State ν ε} {n : Nat} {key : String} {o : Outcome ν ε}

/-- A computation that has nothing to store leaves the registry and publishes. -/
theorem reachable_leave (h : Reachable s) {p : Phase ν ε} (hn : s.tasks[n]? = some ⟨key, p⟩)
    (hp : p.settled? = some o) :
    Reachable { s with
      registry := s.registry.finish key
      tasks := s.tasks.set n ⟨key, .published o⟩ } := by
  obtain ⟨hlt, -⟩ := List.getElem?_eq_some_iff.1 hn
  have hleft := h.step (.unregister hn hp)
  have hphase : (s.released n key o).tasks[n]? = some ⟨key, .unregistered o⟩ := by
    simp [State.released, State.setTask, hlt]
  simpa [State.released, State.setTask] using hleft.step (.publish hphase)

/-- The end of a computation in one go is all its steps from the end of the work on. -/
theorem reachable_complete (h : Reachable s) (hn : s.tasks[n]? = some ⟨key, .running⟩)
    (o : Outcome ν ε) :
    Reachable { s with
      cache := (complete key o s.cache s.registry).1
      registry := (complete key o s.cache s.registry).2.1
      tasks := s.tasks.set n ⟨key, .published o⟩
      reports := s.reports ++ (complete key o s.cache s.registry).2.2 } := by
  obtain ⟨hlt, -⟩ := List.getElem?_eq_some_iff.1 hn
  have hended := h.step (.finish hn o)
  have hphase : (s.setTask n key (.ended o)).tasks[n]? = some ⟨key, .ended o⟩ := by
    simp [State.setTask, hlt]
  cases o with
  | value v =>
    have hstored := hended.step (.store hphase)
    have hkept : ((s.setTask n key (.ended (.value v))).kept n key v).tasks[n]? =
        some ⟨key, .stored v⟩ := by
      simp [State.setTask, hlt]
    simpa [State.kept, State.setTask, complete] using reachable_leave hstored hkept rfl
  | failure e => simpa [State.setTask, complete] using reachable_leave hended hphase rfl
  | crash reason => simpa [State.setTask, complete] using reachable_leave hended hphase rfl

end Protocol

/-- Where a caller stands. One that waits takes its result when it is looked at. -/
def Stage.position : Stage → Protocol.Position String String
  | .ready => .arrived
  | .waiting n => .waiting n
  | .answered v => .returned (.ok v)
  | .abandoned => .abandoned

def Caller.load (c : Caller) : Protocol.Load String String := ⟨c.key, c.stage.position⟩

/-- How far a computation has come. Once it ends, it is published in the same turn. -/
def Computation.phase (c : Computation) : Protocol.Phase String String :=
  if c.result.isSome then .published c.plan.outcome
  else if c.entered then .running
  else .spawned

def Computation.task (c : Computation) : Protocol.Task String String := ⟨c.key, c.phase⟩

namespace Schedule

variable {s t : Schedule} {rs : List Report} {n k : Nat}

/-- A schedule, and what was reported so far, as a state of the step system. -/
def view (s : Schedule) (rs : List Report) : State String String where
  cache := s.cache
  registry := s.registry
  loads := s.callers.map Caller.load
  tasks := s.computations.map Computation.task
  reports := rs

theorem view_loads (rs : List Report) {c : Caller} (h : s.callers[n]? = some c) :
    (s.view rs).loads[n]? = some ⟨c.key, c.stage.position⟩ := by
  simp [view, h, Caller.load]

theorem view_tasks (rs : List Report) {c : Computation} (h : s.computations[k]? = some c) :
    (s.view rs).tasks[k]? = some ⟨c.key, c.phase⟩ := by
  simp [view, h, Computation.task]

theorem view_setStage {c : Caller} (h : s.callers[n]? = some c) (stage : Stage) :
    (s.setStage n stage).view rs = (s.view rs).setLoad n c.key stage.position := by
  have hmodify : (s.callers.modify n fun c => { c with stage }).map Caller.load =
      (s.callers.map Caller.load).set n ⟨c.key, stage.position⟩ := by
    obtain ⟨hn, rfl⟩ := List.getElem?_eq_some_iff.1 h
    refine List.ext_getElem? fun i => ?_
    by_cases hi : n = i
    · subst hi
      simp [hn, Caller.load]
    · simp [hi]
  simp only [view, setStage, State.setLoad, hmodify]

theorem reachable_ofCapacity (capacity : Nat) : Reachable ((ofCapacity capacity).view []) :=
  ⟨capacity, [], .start⟩

theorem reachable_start (h : Reachable (s.view rs)) (task key : String)
    (outcome : Outcome String String) (gated : Bool) :
    Reachable ((s.start task key outcome gated).view rs) := by
  have hview : (s.start task key outcome gated).view rs =
      { s.view rs with loads := (s.view rs).loads ++ [⟨key, .arrived⟩] } := by
    simp [view, start, Caller.load, Stage.position]
  rw [hview]
  exact h.step (.arrive key)

theorem reachable_abandon (h : Reachable (s.view rs)) (task : String) :
    Reachable ((s.abandon task).view rs) := by
  unfold abandon
  split
  · exact h
  · next n _ =>
    split
    · next hsight =>
      unfold sight at hsight
      split at hsight
      · cases hsight
      · next c hc =>
        have hpending : c.stage.position.isPending = true := by
          cases hstage : c.stage with
          | ready => rfl
          | waiting m => rfl
          | answered v => simp [hstage] at hsight
          | abandoned => simp [hstage] at hsight
        rw [view_setStage hc]
        exact h.step (.abandon (view_loads rs hc) hpending)
    · exact h

theorem reachable_client (h : Reachable (s.view rs)) (op : Cache.Operation String) :
    Reachable ({ s with cache := (s.cache.perform op).2.1 }.view
      (rs ++ (s.cache.perform op).2.2)) :=
  h.step (.client op)

/-- A caller's turn is its first lookup and, if that finds nothing, its critical section. -/
theorem reachable_runCaller (h : Reachable (s.view rs)) {c : Caller}
    (hc : s.callers[n]? = some c) (hready : c.stage = .ready) :
    Reachable ((s.runCaller n c).1.view (rs ++ (s.runCaller n c).2)) := by
  have hload : (s.view rs).loads[n]? = some ⟨c.key, .arrived⟩ := by
    rw [view_loads rs hc, hready]
    rfl
  have hlook := h.step (.look hload)
  unfold runCaller
  split
  · next v cache reports hget =>
    have hlooked : (s.view rs).looked n c.key =
        ({ s with cache }.setStage n (.answered v)).view (rs ++ reports) := by
      rw [view_setStage (s := { s with cache }) hc]
      simp [State.looked, view, hget, Stage.position]
    exact hlooked ▸ hlook
  · next cache reports hget =>
    have hlooked : (s.view rs).looked n c.key =
        ({ s with cache }.view (rs ++ reports)).setLoad n c.key .missed := by
      simp [State.looked, view, hget]
    rw [hlooked] at hlook
    have hmissed : (({ s with cache }.view (rs ++ reports)).setLoad n c.key .missed).loads[n]? =
        some ⟨c.key, .missed⟩ := by
      obtain ⟨hn, -⟩ := List.getElem?_eq_some_iff.1 hc
      simp [State.setLoad, view, hn]
    have henter := hlook.step (.enter hmissed)
    generalize hentry : Flight.enter c.key cache s.registry = e
    obtain ⟨entry, registry, more⟩ := e
    cases entry with
    | answered v =>
      have hentered : (({ s with cache }.view (rs ++ reports)).setLoad n c.key .missed).entered
          n c.key =
            ({ s with cache, registry }.setStage n (.answered v)).view
              (rs ++ (reports ++ more)) := by
        rw [view_setStage (s := { s with cache, registry }) hc]
        simp [State.entered, State.setLoad, view, hentry, Stage.position]
      exact hentered ▸ henter
    | joined k =>
      have hentered : (({ s with cache }.view (rs ++ reports)).setLoad n c.key .missed).entered
          n c.key =
            ({ s with cache, registry }.setStage n (.waiting k)).view
              (rs ++ (reports ++ more)) := by
        rw [view_setStage (s := { s with cache, registry }) hc]
        simp [State.entered, State.setLoad, view, hentry, Stage.position]
      exact hentered ▸ henter
    | started k =>
      let computations := s.computations ++ [{ key := c.key, plan := c.plan }]
      let queue := s.queue ++ [.computation k]
      have hentered : (({ s with cache }.view (rs ++ reports)).setLoad n c.key .missed).entered
          n c.key =
            ({ s with cache, registry, computations, queue }.setStage n (.waiting k)).view
              (rs ++ (reports ++ more)) := by
        rw [view_setStage (s := { s with cache, registry, computations, queue }) hc]
        simp [State.entered, State.setLoad, view, hentry, Stage.position, Computation.task,
          Computation.phase, computations]
      exact hentered ▸ henter

/-- A computation's turn calls the work if it has not begun, and ends it unless a gate is shut. -/
theorem reachable_runComputation (h : Reachable (s.view rs)) {c : Computation}
    (hc : s.computations[k]? = some c) (hnone : c.result = none) :
    Reachable ((s.runComputation k c).1.view (rs ++ (s.runComputation k c).2)) := by
  have hphase := view_tasks rs hc
  have hrunning : Reachable ((s.view rs).setTask k c.key .running) := by
    cases hentered : c.entered with
    | false =>
      have hspawned : c.phase = .spawned := by simp [Computation.phase, hnone, hentered]
      exact h.step (.call (hspawned ▸ hphase))
    | true =>
      have hsame : c.phase = .running := by simp [Computation.phase, hnone, hentered]
      rw [hsame] at hphase
      obtain ⟨hk, heq⟩ := List.getElem?_eq_some_iff.1 hphase
      simpa [State.setTask, ← heq] using h
  simp only [runComputation]
  -- the count of calls is no part of the view
  generalize hr : (if c.entered = true then s else { s with calls := s.calls + 1 }) = r
  have hview : s.view rs = r.view rs := by
    rw [← hr]
    split <;> rfl
  rw [hview] at hrunning
  split
  · obtain ⟨hk, -⟩ := List.getElem?_eq_some_iff.1 (hview ▸ hphase)
    have hbegun : ((r.view rs).setTask k c.key .running).tasks[k]? = some ⟨c.key, .running⟩ := by
      simp [State.setTask, hk]
    have hended := Protocol.reachable_complete hrunning hbegun c.plan.outcome
    simpa [view, State.setTask, Computation.task, Computation.phase] using hended
  · simpa [view, State.setTask, Computation.task, Computation.phase, hnone] using hrunning

theorem reachable_run (h : Reachable (s.view rs)) (job : Job) :
    Reachable ((s.run job).1.view (rs ++ (s.run job).2)) := by
  cases job with
  | caller n =>
    simp only [run]
    split
    · next c hc =>
      split
      · next hready => exact reachable_runCaller h hc hready
      · simpa using h
    · simpa using h
  | computation k =>
    simp only [run]
    split
    · next c hc =>
      split
      · next hnone => exact reachable_runComputation h hc (Option.isNone_iff_eq_none.1 hnone)
      · simpa using h
    · simpa using h

theorem reachable_runFor (count : Nat) (h : Reachable (s.view rs)) :
    Reachable ((runFor count s).1.view (rs ++ (runFor count s).2)) := by
  induction count generalizing s rs with
  | zero => simpa [runFor] using h
  | succ count ih =>
    unfold runFor
    split
    · simpa using h
    · next job queue _ =>
      have hqueue : Reachable ({ s with queue }.view rs) := h
      have hrun := ih (reachable_run hqueue job)
      rw [List.append_assoc] at hrun
      exact hrun

/-- The schedules that clients can bring about. -/
inductive Reached : Schedule → Prop
  | ofCapacity (capacity : Nat) : Reached (ofCapacity capacity)
  | start {s : Schedule} (h : Reached s) (task key : String) (outcome : Outcome String String)
      (gated : Bool) : Reached (s.start task key outcome gated)
  | settle {s : Schedule} (h : Reached s) : Reached s.settle.1
  | openGate {s : Schedule} (h : Reached s) (task : String) : Reached (s.openGate task)
  | join {s : Schedule} (h : Reached s) (task : String) : Reached (s.join task).2
  | abandon {s : Schedule} (h : Reached s) (task : String) : Reached (s.abandon task)
  | client {s : Schedule} (h : Reached s) (op : Cache.Operation String) :
      Reached { s with cache := (s.cache.perform op).2.1 }

theorem view_openGate (task : String) : (s.openGate task).view rs = s.view rs := by
  unfold openGate
  split <;> rfl

theorem view_join (task : String) : (s.join task).2.view rs = s.view rs := by
  unfold join
  split
  · rfl
  · split <;> rfl

/-- Whatever clients do, what they bring about is a reachable state of the step system. -/
theorem reachable_view (h : s.Reached) : ∃ rs, Reachable (s.view rs) := by
  induction h with
  | ofCapacity capacity => exact ⟨[], reachable_ofCapacity capacity⟩
  | start _ task key outcome gated ih =>
    obtain ⟨rs, h⟩ := ih
    exact ⟨rs, reachable_start h task key outcome gated⟩
  | settle _ ih =>
    obtain ⟨rs, h⟩ := ih
    exact ⟨_, reachable_runFor _ h⟩
  | openGate _ task ih =>
    obtain ⟨rs, h⟩ := ih
    exact ⟨rs, (view_openGate task).symm ▸ h⟩
  | join _ task ih =>
    obtain ⟨rs, h⟩ := ih
    exact ⟨rs, (view_join task).symm ▸ h⟩
  | abandon _ task ih =>
    obtain ⟨rs, h⟩ := ih
    exact ⟨rs, reachable_abandon h task⟩
  | client _ op ih =>
    obtain ⟨rs, h⟩ := ih
    exact ⟨_, reachable_client h op⟩

/-- The registry of a schedule lists the computations without a result, by key. -/
theorem find?_eq_some_iff_pending (h : s.Reached) (key : String) (k : Nat) :
    s.registry.find? key = some k ↔
      ∃ c, s.computations[k]? = some c ∧ c.key = key ∧ c.result = none := by
  obtain ⟨rs, hs⟩ := reachable_view h
  refine ((Protocol.coherent_reachable hs).find?_eq_some_iff key k).trans ?_
  constructor
  · rintro ⟨p, hp, hopen⟩
    rw [view, List.getElem?_map] at hp
    obtain ⟨c, hc, htask⟩ := Option.map_eq_some_iff.1 hp
    obtain ⟨rfl, rfl⟩ := Protocol.Task.mk.inj htask
    refine ⟨c, hc, rfl, ?_⟩
    cases hresult : c.result with
    | none => rfl
    | some r => simp [Computation.phase, hresult, Protocol.Phase.isOpen] at hopen
  · rintro ⟨c, hc, rfl, hnone⟩
    refine ⟨c.phase, view_tasks rs hc, ?_⟩
    unfold Computation.phase
    rw [hnone]
    cases c.entered <;> rfl

/-- Each result is what callers get of the outcome of the computation. -/
def Sound (s : Schedule) : Prop :=
  ∀ c ∈ s.computations, ∀ r, c.result = some r → r = c.plan.outcome.result c.key

theorem sound_runCaller (h : s.Sound) (c : Caller) : (s.runCaller n c).1.Sound := by
  unfold runCaller
  split
  · exact h
  · simp only
    split
    · exact h
    · exact h
    · intro d hd r hr
      rcases List.mem_append.1 hd with hd | hd
      · exact h d hd r hr
      · obtain rfl := List.mem_singleton.1 hd
        cases hr

theorem sound_runComputation (h : s.Sound) {c : Computation}
    (hnone : c.result = none) : (s.runComputation k c).1.Sound := by
  simp only [runComputation]
  generalize hr : (if c.entered = true then s else { s with calls := s.calls + 1 }) = r
  have hsound : r.Sound := by
    rw [← hr]
    split <;> exact h
  split
  · intro d hd result hresult
    rcases List.mem_or_eq_of_mem_set hd with hd | rfl
    · exact hsound d hd result hresult
    · exact (Option.some.inj hresult).symm
  · intro d hd result hresult
    rcases List.mem_or_eq_of_mem_set hd with hd | rfl
    · exact hsound d hd result hresult
    · simp [hnone] at hresult

theorem sound_run (h : s.Sound) (job : Job) : (s.run job).1.Sound := by
  cases job with
  | caller n =>
    simp only [run]
    split
    · next c _ =>
      split
      · exact sound_runCaller h c
      · exact h
    · exact h
  | computation k =>
    simp only [run]
    split
    · split
      · next hnone => exact sound_runComputation h (Option.isNone_iff_eq_none.1 hnone)
      · exact h
    · exact h

theorem sound_runFor (count : Nat) (h : s.Sound) : (runFor count s).1.Sound := by
  induction count generalizing s with
  | zero => exact h
  | succ count ih =>
    unfold runFor
    split
    · exact h
    · next job queue _ => exact ih (sound_run (s := { s with queue }) h job)

theorem sound_reached (h : s.Reached) : s.Sound := by
  induction h with
  | ofCapacity capacity => nofun
  | start _ _ _ _ _ ih => exact ih
  | settle _ ih => exact sound_runFor _ ih
  | openGate _ task ih =>
    unfold openGate
    split <;> exact ih
  | join _ task ih =>
    unfold join
    split
    · exact ih
    · split <;> exact ih
  | abandon _ task ih =>
    unfold abandon
    split
    · exact ih
    · split <;> exact ih
  | client _ _ ih => exact ih

/-- What a client sees of a task that is over is what its load returns in the step system. -/
theorem exists_returned_of_sight (h : s.Reached) {r : Except (Fault String) String}
    (hsight : s.sight n = .finished r) :
    ∃ t key, Reachable t ∧ t.cache = s.cache ∧ t.registry = s.registry ∧
      t.loads[n]? = some ⟨key, .returned r⟩ := by
  obtain ⟨rs, hs⟩ := reachable_view h
  unfold sight at hsight
  split at hsight
  · cases hsight
  · next c hc =>
    have hload := view_loads rs hc
    cases hstage : c.stage with
    | ready => simp [hstage] at hsight
    | abandoned => simp [hstage] at hsight
    | answered v =>
      simp only [hstage, Sight.finished.injEq] at hsight
      subst hsight
      exact ⟨_, c.key, hs, rfl, rfl, by rw [hload, hstage]; rfl⟩
    | waiting k =>
      simp only [hstage] at hsight
      split at hsight
      · next r' hresult =>
        obtain rfl := Sight.finished.inj hsight
        obtain ⟨d, hd, hdr⟩ := Option.bind_eq_some_iff.1 hresult
        have hwaiting : (s.view rs).loads[n]? = some ⟨c.key, .waiting k⟩ := by
          rw [hload, hstage]
          rfl
        have hpublished : (s.view rs).tasks[k]? = some ⟨d.key, .published d.plan.outcome⟩ := by
          rw [view_tasks rs hd, Computation.phase, hdr]
          rfl
        have hreceived := hs.step (.receive hwaiting hpublished)
        obtain ⟨hn, -⟩ := List.getElem?_eq_some_iff.1 hwaiting
        refine ⟨_, c.key, hreceived, rfl, rfl, ?_⟩
        rw [sound_reached h d (List.mem_of_getElem? hd) r' hdr]
        simp [State.setLoad, hn]
      · cases hsight

end Schedule

end Folio.Flight
