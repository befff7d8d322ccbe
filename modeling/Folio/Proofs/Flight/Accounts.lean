import Mathlib.Algebra.Ring.Int.Defs
import Folio.Proofs.Cache.Books
import Folio.Proofs.Flight.Courses
import Folio.Proofs.Flight.Exclusion

/-!
The books of single flight: the lookups that the cache counts, the joins that are reported, the
calls of the closures and the entries of the registry, each against the history.
-/
namespace Folio

universe u v

namespace Cache

variable {ν : Type u} {c : Cache ν} {key : String} {v : ν}

/-- A cache reports no joins. -/
theorem total_get : Report.total Metric.flightJoined (c.get key).2.2 = 0 := by
  unfold get
  split <;> simp [Metric.flightJoined, Metric.cacheHit, Metric.cacheMiss]

theorem total_set : Report.total Metric.flightJoined (c.set key v).2.2 = 0 := by
  unfold set
  split <;> simp [Metric.flightJoined, Metric.cacheEviction]

theorem total_perform (op : Operation ν) :
    Report.total Metric.flightJoined (c.perform op).2.2 = 0 := by
  cases op with
  | get key => exact total_get
  | set key v => exact total_set
  | peek | delete | contains | clear | reset => rfl

end Cache

namespace Flight.Protocol

variable {ν : Type u} {ε : Type v} {s t : State ν ε} {a : Act ν ε} {c n : Nat} {key : String}
  {ts : List (Transition ν ε)} {τ : Transition ν ε}

namespace Act

/-- The load that takes a step. -/
def load? : Act ν ε → Option Nat
  | .look c | .enter c | .receive c | .abandon c => some c
  | _ => none

/-- The computation whose closure is called. -/
def calls? : Act ν ε → Option Nat
  | .call n => some n
  | _ => none

/-- The computation whose entry is removed from the registry. -/
def removes? : Act ν ε → Option Nat
  | .unregister n => some n
  | _ => none

def isClient : Act ν ε → Bool
  | .client _ => true
  | _ => false

end Act

/-- By how much a step raises the lookups that the cache counts. -/
def Transition.charge (τ : Transition ν ε) : Int :=
  τ.target.cache.lookups - τ.source.cache.lookups

/-- What the steps of some kind add to the lookups that the cache counts. -/
def charged (ts : List (Transition ν ε)) (kind : Act ν ε → Bool) : Int :=
  ((ts.filter fun τ => kind τ.act).map Transition.charge).sum

/-- The computations whose closures were called. -/
def called (ts : List (Transition ν ε)) : List Nat := acted Act.calls? ts

/-- The computations whose entries were removed. -/
def removed (ts : List (Transition ν ε)) : List Nat := acted Act.removes? ts

section Lookups

theorem charged_append (ts : List (Transition ν ε)) (τ : Transition ν ε) (kind : Act ν ε → Bool) :
    charged (ts ++ [τ]) kind = charged ts kind + if kind τ.act then τ.charge else 0 := by
  unfold charged
  rw [List.filter_append, List.map_append, List.sum_append]
  cases h : kind τ.act <;> simp [h]

/-- Apart from other clients, the first lookups of loads are all that the cache counts. -/
theorem charge_step (h : Step s a t) (ha : a.isClient = false) :
    (⟨s, a, t⟩ : Transition ν ε).charge = if a.looks?.isSome then 1 else 0 := by
  cases h with
  | @look c key hc =>
    have hget : (s.looked c key).cache.lookups = s.cache.lookups + 1 := by
      rw [State.looked_cache, Cache.lookups_get]
    simp only [Transition.charge, hget, Act.looks?, Option.isSome_some, if_true]
    omega
  | @store n key v hn =>
    have hset : (s.kept n key v).cache.lookups = s.cache.lookups := Cache.lookups_set
    simp only [Transition.charge, hset, Act.looks?, Option.isSome_none]
    exact Int.sub_self _
  | enter hc =>
    simp only [Transition.charge, State.entered_cache]
    exact Int.sub_self _
  | client op => cases ha
  | arrive | receive | abandon | call | finish | unregister | publish => exact Int.sub_self _

/-- A load adds one to the lookups when it is past its first lookup, and nothing else. -/
theorem charged_load {s₀ : State ν ε} (h : Run s₀ ts s) (c : Nat) :
    charged ts (fun a => a.load? = some c) = (lookedUp ts).count c := by
  induction h with
  | start => rfl
  | @step ts t u a hrun hstep ih =>
    rw [charged_append, ih, lookedUp, lookedUp, acted_append, List.count_append, Int.natCast_add]
    congr 1
    by_cases hc : a.load? = some c
    · have hclient : a.isClient = false := by
        cases a <;> first | rfl | cases hc
      rw [if_pos (by simpa using hc), charge_step hstep hclient]
      cases a <;> simp_all [Act.looks?, Act.load?]
    · rw [if_neg (by simpa using hc)]
      cases a <;> simp_all [Act.looks?, Act.load?]

/-- The cache has counted one lookup for each load past its first, and what other clients asked. -/
theorem lookups_run {s₀ : State ν ε} (h : Run s₀ ts s) :
    (s.cache.lookups : Int) =
      s₀.cache.lookups + (lookedUp ts).length + charged ts Act.isClient := by
  induction h with
  | start => simp [lookedUp, acted, charged]
  | @step ts t u a hrun hstep ih =>
    have hcharge : (u.cache.lookups : Int) =
        t.cache.lookups + (⟨t, a, u⟩ : Transition ν ε).charge := by
      dsimp only [Transition.charge]
      omega
    rw [charged_append, lookedUp, acted_append, List.length_append, hcharge, ih, lookedUp]
    cases hclient : a.isClient with
    | false =>
      rw [charge_step hstep hclient]
      cases a.looks? with
      | none => simp
      | some c =>
        simp only [Option.isSome_some, if_true, Option.toList_some, List.length_singleton,
          Int.natCast_add, Bool.false_eq_true, if_false]
        omega
    | true =>
      have hlooks : a.looks? = none := by
        cases a <;> first | rfl | cases hclient
      simp [hlooks, Int.add_assoc]

end Lookups

section Joins

theorem looked_reports (s : State ν ε) (c : Nat) (key : String) :
    (s.looked c key).reports = s.reports ++ (s.cache.get key).2.2 := by
  unfold State.looked
  split
  all_goals
    next h =>
    rw [h]
    rfl

theorem kept_reports (s : State ν ε) (n : Nat) (key : String) (v : ν) :
    (s.kept n key v).reports = s.reports ++ (s.cache.set key v).2.2 := rfl

theorem served_reports (s : State ν ε) (op : Cache.Operation ν) :
    (s.served op).reports = s.reports ++ (s.cache.perform op).2.2 := rfl

/-- Every join is reported once. -/
theorem joined_step (h : Step s a t) : Report.total Metric.flightJoined t.reports =
    Report.total Metric.flightJoined s.reports + (⟨s, a, t⟩ : Transition ν ε).took .joined := by
  by_cases hin : ∃ c, a = .enter c
  · obtain ⟨c, rfl⟩ := hin
    cases h with
    | @enter c key hc =>
      rw [took_enter hc]
      rcases s.entered_passages c key with ⟨v, hP, ht⟩ | ⟨m, hP, ht⟩ | ⟨hP, -, ht⟩ <;>
        simp [ht, hP, State.setLoad]
  · rw [took_of_ne h (fun c hc => hin ⟨c, hc⟩) rfl (by simp), Nat.add_zero]
    cases h with
    | look hc => rw [looked_reports, Report.total_append, Cache.total_get, Nat.add_zero]
    | enter hc => exact (hin ⟨_, rfl⟩).elim
    | store hn => rw [kept_reports, Report.total_append, Cache.total_set, Nat.add_zero]
    | client op => rw [served_reports, Report.total_append, Cache.total_perform, Nat.add_zero]
    | arrive | receive | abandon | call | finish | unregister | publish => rfl

theorem joined_run {capacity : Nat} (h : Run (.ofCapacity capacity) ts s) :
    Report.total Metric.flightJoined s.reports = (through .joined ts).length := by
  induction h with
  | start => rfl
  | step _ hstep ih => rw [joined_step hstep, ih, length_through_append]

end Joins

section Calls

/-- How often the closure of a computation has been called. -/
def Phase.calls : Phase ν ε → Nat
  | .spawned => 0
  | .running | .ended _ | .stored _ | .unregistered _ | .published _ => 1

/-- How often the closure of a computation has been called, if there is one of this number. -/
def State.calls (s : State ν ε) (n : Nat) : Nat := (s.tasks[n]?.map (·.phase.calls)).getD 0

theorem calls_setTask {m : Nat} {k : String} {p q : Phase ν ε} (h : s.tasks[m]? = some ⟨k, p⟩)
    (ht : t.tasks = s.tasks.set m ⟨k, q⟩) :
    t.calls n = if m = n then q.calls else s.calls n := by
  obtain ⟨hm, -⟩ := List.getElem?_eq_some_iff.1 h
  by_cases hmn : m = n
  · subst hmn
    simp [State.calls, ht, hm]
  · simp [State.calls, ht, hmn]

/-- A computation whose closure was called goes on. -/
theorem calls_of_phase {m : Nat} {k : String} {p q : Phase ν ε} (h : s.tasks[m]? = some ⟨k, p⟩)
    (ht : t.tasks = s.tasks.set m ⟨k, q⟩) (hq : q.calls = p.calls) : t.calls n = s.calls n := by
  rw [calls_setTask h ht]
  split
  · next hmn =>
    subst hmn
    simp [State.calls, h, hq]
  · rfl

theorem calls_start (ht : t.tasks = s.tasks ++ [⟨key, .spawned⟩]) : t.calls n = s.calls n := by
  rcases Nat.lt_trichotomy n s.tasks.length with hlt | rfl | hlt
  · rw [State.calls, ht, List.getElem?_append_left hlt, State.calls]
  · simp [State.calls, ht, Phase.calls]
  · have hle : (s.tasks ++ [(⟨key, .spawned⟩ : Task ν ε)]).length ≤ n := by
      rwa [List.length_append, List.length_singleton]
    simp [State.calls, ht, List.getElem?_eq_none hle, Nat.le_of_lt hlt]

theorem calls_of_settled {p : Phase ν ε} {o : Outcome ν ε} (h : p.settled? = some o) :
    p.calls = 1 := by
  cases p with
  | spawned => cases h
  | running | ended | stored | unregistered | published => rfl

theorem calls_step (h : Step s a t) (n : Nat) :
    t.calls n = s.calls n + a.calls?.toList.count n := by
  cases h with
  | @call m key hm =>
    rw [calls_setTask hm rfl, Act.calls?, Option.toList_some, List.count_singleton]
    by_cases hmn : m = n
    · subst hmn
      simp [State.calls, hm, Phase.calls]
    · simp [hmn]
  | finish hm o => exact calls_of_phase hm rfl rfl
  | store hm => exact calls_of_phase hm rfl rfl
  | unregister hm hp => exact calls_of_phase hm rfl (calls_of_settled hp).symm
  | publish hm => exact calls_of_phase hm rfl rfl
  | @enter c key hc =>
    rcases s.entered_cases c key with ⟨v, -, ht⟩ | ⟨m, -, -, ht⟩ | ⟨-, -, ht⟩ <;> rw [ht]
    · rfl
    · rfl
    · exact calls_start rfl
  | look hc =>
    rw [State.calls, State.looked_tasks]
    rfl
  | arrive | receive | abandon | client => rfl

theorem called_run {capacity : Nat} (h : Run (.ofCapacity capacity) ts s) (n : Nat) :
    (called ts).count n = s.calls n := by
  induction h with
  | start => rfl
  | step _ hstep ih =>
    rw [called, acted_append, List.count_append, ← called, ih, calls_step hstep]

/-- The closure of a computation that has ended was called. -/
theorem calls_of_outcome {k : String} {p : Phase ν ε} {o : Outcome ν ε}
    (h : s.tasks[n]? = some ⟨k, p⟩) (ho : p.outcome? = some o) : s.calls n = 1 := by
  rw [State.calls, h]
  cases p with
  | spawned => cases ho
  | running | ended | stored | unregistered | published => rfl

theorem calls_le (s : State ν ε) (n : Nat) : s.calls n ≤ 1 := by
  unfold State.calls
  cases s.tasks[n]? with
  | none => exact Nat.zero_le 1
  | some task =>
    obtain ⟨k, p⟩ := task
    cases p <;> simp [Phase.calls]

end Calls

section Entries

variable {r : Registry}

theorem size_start (h : r.find? key = none) : (r.start key).2.size = r.size + 1 := by
  have hnot : key ∉ r.active.map Prod.fst := Entries.get?_eq_none_iff.1 h
  rw [Registry.size, Registry.start, Entries.put_of_not_mem hnot, List.length_append]
  rfl

theorem size_finish (h : r.find? key = some n) : (r.finish key).size + 1 = r.size := by
  have hmem : key ∈ r.active.map Prod.fst := List.mem_map_of_mem (Entries.mem_of_get? h)
  have hpos := List.length_pos_of_mem hmem
  have hlength : ((r.finish key).active.map Prod.fst).length = _ :=
    (congrArg List.length (Entries.keys_erase key r.active)).trans (List.length_erase_of_mem hmem)
  simp only [List.length_map] at hpos hlength
  rw [Registry.size, Registry.size, hlength]
  omega

/-- A computation is started in the passage of that name, and enters the registry. -/
theorem size_step (h : Step s a t) (hs : Coherent s) :
    t.tasks.length = s.tasks.length + (⟨s, a, t⟩ : Transition ν ε).took .started ∧
    t.registry.size + a.removes?.toList.length =
      s.registry.size + (⟨s, a, t⟩ : Transition ν ε).took .started := by
  by_cases hin : ∃ c, a = .enter c
  · obtain ⟨c, rfl⟩ := hin
    cases h with
    | @enter c key hc =>
      rw [took_enter hc]
      rcases s.entered_passages c key with ⟨v, hP, ht⟩ | ⟨m, hP, ht⟩ | ⟨hP, hm, ht⟩
      · simp [ht, hP, State.setLoad, Act.removes?]
      · simp [ht, hP, Act.removes?]
      · simp [ht, hP, Act.removes?, size_start hm]
  · rw [took_of_ne h (fun c hc => hin ⟨c, hc⟩) rfl (by simp), Nat.add_zero, Nat.add_zero]
    cases h with
    | enter hc => exact (hin ⟨_, rfl⟩).elim
    | @unregister n key p o hn hp =>
      have hlisted := (hs.find?_eq_some_iff key n).2 ⟨p, hn, Phase.isOpen_of_settled hp⟩
      refine ⟨List.length_set, ?_⟩
      exact size_finish hlisted
    | look hc => simp [Act.removes?]
    | store hn | call hn | finish hn | publish hn => exact ⟨List.length_set, rfl⟩
    | arrive | receive | abandon | client => exact ⟨rfl, rfl⟩

theorem size_run {capacity : Nat} (h : Run (.ofCapacity capacity) ts s) :
    s.tasks.length = (through .started ts).length ∧
      (through .started ts).length = s.registry.size + (removed ts).length := by
  induction h with
  | start => exact ⟨rfl, rfl⟩
  | @step ts t u a hrun hstep ih =>
    have hsize := size_step hstep (coherent_run hrun (coherent_ofCapacity capacity))
    rw [length_through_append, removed, acted_append, List.length_append, ← removed]
    dsimp only
    omega

end Entries

/-- Each load adds one to the lookups that the cache counts, at its first. Of the loads past it each
was answered by it, or was answered by the second, or joined a computation, or started one, or is
between the two. Every join is reported once. A closure is called at most once, and once when its
computation has ended. The registry holds what was started and not removed. -/
theorem load_accounts {capacity : Nat} (h : Run (.ofCapacity capacity) ts s) :
    ((∀ c, charged ts (fun a => a.load? = some c) = if c ∈ lookedUp ts then 1 else 0) ∧
      (∀ c p, s.position? c = some p → p ≠ .abandoned → (c ∈ lookedUp ts ↔ p ≠ .arrived)) ∧
      (s.cache.lookups : Int) = (lookedUp ts).length + charged ts Act.isClient) ∧
    ((lookedUp ts).Nodup ∧
      (lookedUp ts).Perm (through .hit ts ++ through .answered ts ++ through .joined ts ++
        through .started ts ++ between ts s) ∧
      (lookedUp ts).length = (through .hit ts).length + (through .answered ts).length +
        (through .joined ts).length + (through .started ts).length + (between ts s).length) ∧
    (Report.total Metric.flightJoined s.reports = (through .joined ts).length ∧
      (({ sink := .counting } : Meter).takeAll s.reports).counters.count Metric.flightJoined =
        (through .joined ts).length % UInt64.size) ∧
    (∀ n, (called ts).count n ≤ 1 ∧ ∀ k p o, s.tasks[n]? = some ⟨k, p⟩ →
      p.outcome? = some o → (called ts).count n = 1) ∧
    (s.tasks.length = (through .started ts).length ∧
      (through .started ts).length = s.registry.size + (removed ts).length) := by
  have hnodup := nodup_lookedUp h
  have hperm := lookedUp_perm h
  have hjoined := joined_run h
  refine ⟨⟨fun c => ?_, fun c p => mem_lookedUp_iff h, ?_⟩, ⟨hnodup, hperm, ?_⟩,
    ⟨hjoined, ?_⟩, fun n => ⟨?_, fun k p o hn ho => ?_⟩, size_run h⟩
  · rw [charged_load h]
    split
    · next hc => exact congrArg Nat.cast (List.count_eq_one_of_mem hnodup hc)
    · next hc => exact congrArg Nat.cast (List.count_eq_zero_of_not_mem hc)
  · have hlookups := lookups_run h
    have hzero : (State.ofCapacity capacity : State ν ε).cache.lookups = 0 := rfl
    rwa [hzero, Int.natCast_zero, Int.zero_add] at hlookups
  · simpa only [List.length_append] using hperm.length_eq
  · rw [Meter.count_new, hjoined]
  · rw [called_run h]
    exact calls_le s n
  · rw [called_run h]
    exact calls_of_outcome hn ho

/-- Four loads for one key take the four exits. The first computes, the second joins it, the third
finds the value at its second lookup, and the fourth at its first. -/
theorem load_accounts_of_four : ∃ (ts : List (Transition String String))
    (s : State String String), Run (.ofCapacity 1) ts s ∧ through .started ts = [0] ∧
      through .joined ts = [1] ∧ through .answered ts = [2] ∧ through .hit ts = [3] ∧
      s.cache.lookups = 4 ∧ s.registry.size = 0 ∧
      s.tasks.length = (through .started ts).length := by
  have h := (Run.start (s := (.ofCapacity 1 : State String String)))
    |>.step (.arrive "a") |>.step (.look (c := 0) rfl) |>.step (.enter (c := 0) rfl)
    |>.step (.arrive "a") |>.step (.look (c := 1) rfl) |>.step (.enter (c := 1) rfl)
    |>.step (.arrive "a") |>.step (.look (c := 2) rfl)
    |>.step (.call (n := 0) rfl) |>.step (.finish (n := 0) rfl (.value "page"))
    |>.step (.store (n := 0) rfl) |>.step (.enter (c := 2) rfl)
    |>.step (.unregister (n := 0) rfl rfl) |>.step (.arrive "a") |>.step (.look (c := 3) rfl)
  exact ⟨_, _, h, rfl, rfl, rfl, rfl, rfl, rfl, (load_accounts h).2.2.2.2.1⟩

end Flight.Protocol

end Folio
