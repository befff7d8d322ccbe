import Folio.Proofs.Cache.Contents
import Folio.Proofs.Flight.Exclusion

/-!
How often a key is computed. Each computation after the first needs one that failed, or an entry
that left the cache.
-/
namespace Folio.Flight.Protocol

universe u v

variable {ν : Type u} {ε : Type v} {s t u : State ν ε} {a : Act ν ε} {key : String} {n d : Nat}
  {ts : List (Transition ν ε)}

/-- Whether the work ended in an error or broke off. -/
def Task.failed (task : Task ν ε) : Bool := task.phase.outcome?.any Outcome.isFailure

/-- The computations ever started for a key. -/
def startedCount (s : State ν ε) (key : String) : Nat := s.tasks.countP (·.key = key)

/-- The computations for a key that ended in an error or broke off. -/
def failedCount (s : State ν ε) (key : String) : Nat :=
  s.tasks.countP fun task => task.key = key && task.failed

/-- A computation for a key that has not failed. -/
def Task.isSound (key : String) (task : Task ν ε) : Bool := task.key = key && !task.failed

def soundCount (s : State ν ε) (key : String) : Nat :=
  s.tasks.countP (Task.isSound key)

/-- Whether the entry of a key leaves the cache from one state to the next. -/
def departs (s t : State ν ε) (key : String) : Bool :=
  s.cache.contains key && !t.cache.contains key

/-- How often an entry of a key left the cache. -/
def departures (ts : List (Transition ν ε)) (key : String) : Nat :=
  ts.countP fun τ => departs τ.source τ.target key

/-- Whether a value may still be stored. -/
def Phase.mayStore : Phase ν ε → Bool
  | .spawned | .running | .ended (.value _) => true
  | _ => false

/-- The key is in the cache, or a computation may still bring it there. -/
def Shielded (s : State ν ε) (key : String) : Prop :=
  s.cache.contains key = true ∨
    ∃ (n : Nat) (p : Phase ν ε), s.tasks[n]? = some ⟨key, p⟩ ∧ p.mayStore = true

/-- A shield is paid for by the computation that made it, and is lost only with that computation or
with the entry. -/
def Budget (s : State ν ε) (key : String) (d : Nat) : Prop :=
  soundCount s key ≤ d + 1 ∧ (¬ Shielded s key → soundCount s key ≤ d)

theorem countP_set_add {α : Type u} {l : List α} {x y : α} (f : α → Bool) (h : l[n]? = some x) :
    (l.set n y).countP f + (if f x then 1 else 0) = l.countP f + if f y then 1 else 0 := by
  obtain ⟨hn, he⟩ := List.getElem?_eq_some_iff.1 h
  have hle := List.boole_getElem_le_countP (p := f) hn
  rw [he] at hle
  rw [List.countP_set hn, he]
  omega

theorem startedCount_eq : startedCount s key = soundCount s key + failedCount s key := by
  unfold startedCount soundCount failedCount
  induction s.tasks with
  | nil => rfl
  | cons task tasks ih =>
    simp only [List.countP_cons, ih]
    by_cases hk : task.key = key <;> by_cases hf : task.failed = true <;>
      simp [Task.isSound, hk, hf] <;> omega

theorem isOpen_of_mayStore {p : Phase ν ε} (h : p.mayStore = true) : p.isOpen = true := by
  cases p <;> simp_all [Phase.mayStore, Phase.isOpen]

/-- Where neither cache nor registry has the key, nothing is on the way. -/
theorem not_shielded (hs : Coherent s) (hc : s.cache.peek key = none)
    (hr : s.registry.find? key = none) : ¬ Shielded s key := by
  rintro (h | ⟨n, p, hn, hp⟩)
  · simp [Cache.contains, hc] at h
  · have hclosed := hs.isOpen_eq_false hr hn
    simp [isOpen_of_mayStore hp] at hclosed

theorem shielded_or_departs
    (ht : ∀ (m : Nat) (p : Phase ν ε), s.tasks[m]? = some ⟨key, p⟩ → p.mayStore = true →
      Shielded t key)
    (h : Shielded s key) : Shielded t key ∨ departs s t key = true := by
  rcases h with hc | ⟨m, p, hm, hp⟩
  · by_cases hk : t.cache.contains key = true
    · exact Or.inl (Or.inl hk)
    · exact Or.inr (by simp [departs, hc, hk])
  · exact Or.inl (ht m p hm hp)

/-- A step that takes away a shield and no computation lets the entry leave the cache. -/
theorem budget_of_sound (hb : Budget s key d) (hsound : soundCount t key ≤ soundCount s key)
    (ht : ∀ (m : Nat) (p : Phase ν ε), s.tasks[m]? = some ⟨key, p⟩ → p.mayStore = true →
      Shielded t key) :
    Budget t key (d + if departs s t key then 1 else 0) := by
  obtain ⟨h1, h2⟩ := hb
  refine ⟨by omega, fun hnot => ?_⟩
  by_cases hs : Shielded s key
  · have hd := (shielded_or_departs ht hs).resolve_left hnot
    rw [if_pos hd]
    omega
  · have := h2 hs
    omega

/-- While the cache stays as it is, no shield is lost but with a computation. -/
theorem budget_of_kept (hb : Budget s key d) (hcache : t.cache = s.cache)
    (hsound : soundCount t key ≤ soundCount s key)
    (ht : ∀ (m : Nat) (p : Phase ν ε), s.tasks[m]? = some ⟨key, p⟩ → p.mayStore = true →
      Shielded t key) : Budget t key d := by
  simpa [departs, hcache] using budget_of_sound hb hsound ht

theorem budget_of_eq (hb : Budget s key d) (ht : t.tasks = s.tasks) :
    Budget t key (d + if departs s t key then 1 else 0) := by
  refine budget_of_sound hb (by simp [soundCount, ht]) ?_
  intro m p hm hp
  exact Or.inr ⟨m, p, by rw [ht, hm], hp⟩

section Phases

variable {k : String} {p q : Phase ν ε}

/-- A computation that goes on without failing keeps the shield that it is, or makes another. -/
theorem budget_setTask (hb : Budget s key d) (h : s.tasks[n]? = some ⟨k, p⟩)
    (ht : t.tasks = s.tasks.set n ⟨k, q⟩)
    (hf : Task.failed ⟨k, q⟩ = Task.failed (⟨k, p⟩ : Task ν ε))
    (hq : p.mayStore = true → q.mayStore = true ∨ t.cache.contains k = true) :
    Budget t key (d + if departs s t key then 1 else 0) := by
  obtain ⟨hn, -⟩ := List.getElem?_eq_some_iff.1 h
  have hsame : Task.isSound key ⟨k, q⟩ = Task.isSound key (⟨k, p⟩ : Task ν ε) := by
    simp [Task.isSound, hf]
  have hcount := countP_set_add (y := ⟨k, q⟩) (Task.isSound key) h
  rw [hsame, ← ht] at hcount
  refine budget_of_sound hb (by unfold soundCount; omega) ?_
  intro m r hm hr
  by_cases hmn : m = n
  · subst m
    obtain ⟨rfl, rfl⟩ := State.task_unique h hm
    rcases hq hr with hq | hc
    · exact Or.inr ⟨n, q, by simp [ht, hn], hq⟩
    · exact Or.inl hc
  · exact Or.inr ⟨m, r, by rw [ht, List.getElem?_set_ne (Ne.symm hmn), hm], hr⟩

/-- A computation that fails takes its own shield along. -/
theorem budget_of_failure {o : Outcome ν ε} (hb : Budget s key d)
    (h : s.tasks[n]? = some ⟨k, .running⟩) (ho : o.isFailure = true) :
    Budget (s.setTask n k (.ended o)) key d := by
  have hcount : soundCount (s.setTask n k (.ended o)) key + _ = soundCount s key + _ :=
    countP_set_add (y := ⟨k, .ended o⟩) (Task.isSound key) h
  have hnew : Task.isSound key (⟨k, .ended o⟩ : Task ν ε) = false := by
    simp [Task.isSound, Task.failed, Phase.outcome?, ho]
  rw [hnew] at hcount
  by_cases hk : k = key
  · have hold : Task.isSound key (⟨k, .running⟩ : Task ν ε) = true := by
      simp [Task.isSound, Task.failed, Phase.outcome?, hk]
    rw [hold] at hcount
    simp only [if_true, Bool.false_eq_true, if_false] at hcount
    have := hb.1
    exact ⟨by omega, fun _ => by omega⟩
  · have hold : Task.isSound key (⟨k, .running⟩ : Task ν ε) = false := by
      simp [Task.isSound, hk]
    rw [hold] at hcount
    refine budget_of_kept hb rfl (Nat.le_of_eq hcount) fun m p hm hp => Or.inr ⟨m, p, ?_, hp⟩
    have hmn : n ≠ m := by
      rintro rfl
      exact hk (State.task_unique h hm).1
    exact (List.getElem?_set_ne hmn).trans hm

end Phases

/-- A computation is started only where there is no shield, and is one. -/
theorem budget_of_start {k : String} (hs : Coherent s) (hb : Budget s key d)
    (hc : s.cache.peek k = none) (hr : s.registry.find? k = none)
    (ht : t.tasks = s.tasks ++ [⟨k, .spawned⟩]) (hcache : t.cache = s.cache) :
    Budget t key d := by
  have hcount : soundCount t key =
      soundCount s key + if Task.isSound key (⟨k, .spawned⟩ : Task ν ε) then 1 else 0 := by
    simp only [soundCount, ht, List.countP_append, List.countP_singleton]
  by_cases hk : k = key
  · subst hk
    have hle := hb.2 (not_shielded hs hc hr)
    have hnew : Shielded t k := Or.inr ⟨s.tasks.length, .spawned, by simp [ht], rfl⟩
    refine ⟨?_, fun hnot => (hnot hnew).elim⟩
    split at hcount <;> omega
  · have hother : Task.isSound key (⟨k, .spawned⟩ : Task ν ε) = false := by
      simp [Task.isSound, hk]
    rw [hother] at hcount
    refine budget_of_kept hb hcache (Nat.le_of_eq hcount) fun m p hm hp => ?_
    have hlt := (List.getElem?_eq_some_iff.1 hm).1
    exact Or.inr ⟨m, p, by rw [ht, List.getElem?_append_left hlt, hm], hp⟩

theorem budget_of_cache_eq (h : t.cache = s.cache) (hb : Budget t key d) :
    Budget t key (d + if departs s t key then 1 else 0) := by
  have hd : departs s t key = false := by simp [departs, h]
  rw [hd]
  exact hb

theorem mayStore_of_settled {p : Phase ν ε} {o : Outcome ν ε} (h : p.settled? = some o) :
    p.mayStore = false := by
  cases p with
  | spawned | running => simp [Phase.settled?] at h
  | unregistered o | published o | stored v => rfl
  | ended o => cases o <;> simp_all [Phase.settled?, Phase.mayStore]

theorem budget_step (h : Step s a t) (hs : Coherent s) (hcap : 0 < s.cache.capacity)
    (hb : Budget s key d) : Budget t key (d + if departs s t key then 1 else 0) := by
  cases h with
  | arrive k => exact budget_of_eq hb rfl
  | look hc => exact budget_of_eq hb (by simp)
  | @enter c k hc =>
    rcases s.entered_cases c k with ⟨v, -, ht⟩ | ⟨m, -, -, ht⟩ | ⟨hv, hm, ht⟩ <;> rw [ht]
    · exact budget_of_eq hb rfl
    · exact budget_of_eq hb rfl
    · exact budget_of_cache_eq rfl (budget_of_start hs hb hv hm rfl rfl)
  | receive hc hn => exact budget_of_eq hb rfl
  | abandon hc hp => exact budget_of_eq hb rfl
  | call hn => exact budget_setTask hb hn rfl rfl (fun _ => Or.inl rfl)
  | finish hn o =>
    cases o with
    | value v => exact budget_setTask hb hn rfl rfl (fun _ => Or.inl rfl)
    | failure e => exact budget_of_cache_eq rfl (budget_of_failure hb hn rfl)
    | crash reason => exact budget_of_cache_eq rfl (budget_of_failure hb hn rfl)
  | store hn => exact budget_setTask hb hn rfl rfl (fun _ => Or.inr (Cache.contains_set hcap))
  | unregister hn hp =>
    refine budget_setTask hb hn rfl ?_ ?_
    · simp only [Task.failed, Phase.outcome_of_settled hp]
      rfl
    · simp [mayStore_of_settled hp]
  | publish hn => exact budget_setTask hb hn rfl rfl (by simp [Phase.mayStore])
  | client op => exact budget_of_eq hb (by simp)

theorem capacity_step (h : Step s a t) : t.cache.capacity = s.cache.capacity := by
  cases h with
  | look hc => simp
  | enter hc => simp
  | store hn => exact Cache.capacity_set
  | client op => exact Cache.capacity_perform op
  | arrive k | receive hc hn | abandon hc hp | call hn | finish hn o | unregister hn hp
  | publish hn => rfl

theorem capacity_run (h : Run s ts t) : t.cache.capacity = s.cache.capacity := by
  induction h with
  | start => rfl
  | step _ hstep ih => exact (capacity_step hstep).trans ih

theorem departures_append (ts : List (Transition ν ε)) (τ : Transition ν ε) :
    departures (ts ++ [τ]) key =
      departures ts key + if departs τ.source τ.target key then 1 else 0 := by
  simp only [departures, List.countP_append, List.countP_singleton]

theorem budget_run {capacity : Nat} (hcap : 0 < capacity) (h : Run (.ofCapacity capacity) ts s)
    (key : String) : Budget s key (departures ts key) := by
  induction h with
  | start => exact ⟨Nat.zero_le _, fun _ => Nat.le_refl 0⟩
  | @step ts t u a hrun hstep ih =>
    have hcap' : 0 < t.cache.capacity := by
      rw [capacity_run hrun]
      exact hcap
    rw [departures_append]
    exact budget_step hstep (coherent_run hrun (coherent_ofCapacity capacity)) hcap' ih

/-- A computation for the key has ended with a value that is still to be stored, or the cache holds
an entry. -/
def Succeeded (s : State ν ε) (key : String) : Prop :=
  s.cache.contains key = true ∨
    ∃ (n : Nat) (v : ν), s.tasks[n]? = some ⟨key, .ended (.value v)⟩

theorem succeeded_of_tasks (hk : Succeeded s key) (hd : departs s t key = false)
    (ht : ∀ (m : Nat) (v : ν), s.tasks[m]? = some ⟨key, .ended (.value v)⟩ → Succeeded t key) :
    Succeeded t key := by
  rcases hk with hc | ⟨m, v, hm⟩
  · refine Or.inl ?_
    simpa [departs, hc] using hd
  · exact ht m v hm

/-- A step of another computation, or of one that has no value to store, leaves a success alone. -/
theorem succeeded_setTask {k : String} {p q : Phase ν ε} (hk : Succeeded s key)
    (hd : departs s t key = false) (h : s.tasks[n]? = some ⟨k, p⟩)
    (ht : t.tasks = s.tasks.set n ⟨k, q⟩)
    (hp : ∀ v, p = .ended (.value v) → t.cache.contains k = true) :
    Succeeded t key ∧ startedCount t key = startedCount s key := by
  constructor
  · refine succeeded_of_tasks hk hd fun m v hm => ?_
    by_cases hmn : m = n
    · subst m
      obtain ⟨rfl, rfl⟩ := State.task_unique h hm
      exact Or.inl (hp v rfl)
    · exact Or.inr ⟨m, v, by rw [ht, List.getElem?_set_ne (Ne.symm hmn), hm]⟩
  · have hcount := countP_set_add (y := ⟨k, q⟩) (fun task => decide (task.key = key)) h
    unfold startedCount
    rw [ht]
    exact Nat.add_right_cancel hcount

theorem succeeded_of_eq (hk : Succeeded s key) (hd : departs s t key = false)
    (ht : t.tasks = s.tasks) : Succeeded t key ∧ startedCount t key = startedCount s key := by
  refine ⟨succeeded_of_tasks hk hd fun m v hm => Or.inr ⟨m, v, by rw [ht, hm]⟩, ?_⟩
  simp [startedCount, ht]

/-- Nothing is started for a key that succeeded: the critical section finds the entry or, before it
is stored, the computation. -/
theorem succeeded_ne {k : String} (hs : Coherent s) (hk : Succeeded s key)
    (hc : s.cache.peek k = none) (hr : s.registry.find? k = none) : k ≠ key := by
  rintro rfl
  rcases hk with hk | ⟨n, v, hn⟩
  · simp [Cache.contains, hc] at hk
  · exact Bool.noConfusion (hs.isOpen_eq_false hr hn)

theorem succeeded_step (h : Step s a t) (hs : Coherent s) (hcap : 0 < s.cache.capacity)
    (hk : Succeeded s key) (hd : departs s t key = false) :
    Succeeded t key ∧ startedCount t key = startedCount s key := by
  cases h with
  | arrive k => exact succeeded_of_eq hk hd rfl
  | look hc => exact succeeded_of_eq hk hd (by simp)
  | @enter c k hc =>
    rcases s.entered_cases c k with ⟨v, -, ht⟩ | ⟨m, -, -, ht⟩ | ⟨hv, hm, ht⟩ <;>
      rw [ht] at hd ⊢
    · exact succeeded_of_eq hk hd rfl
    · exact succeeded_of_eq hk hd rfl
    · have hne := succeeded_ne hs hk hv hm
      constructor
      · refine succeeded_of_tasks hk hd fun m v hm => Or.inr ⟨m, v, ?_⟩
        have hlt := (List.getElem?_eq_some_iff.1 hm).1
        exact (List.getElem?_append_left hlt).trans hm
      · simp [startedCount, hne]
  | receive hc hn => exact succeeded_of_eq hk hd rfl
  | abandon hc hp => exact succeeded_of_eq hk hd rfl
  | call hn => exact succeeded_setTask hk hd hn rfl (by simp)
  | finish hn o => exact succeeded_setTask hk hd hn rfl (by simp)
  | store hn => exact succeeded_setTask hk hd hn rfl (fun _ _ => Cache.contains_set hcap)
  | unregister hn hp =>
    refine succeeded_setTask hk hd hn rfl ?_
    rintro v rfl
    simp [Phase.settled?] at hp
  | publish hn => exact succeeded_setTask hk hd hn rfl (by simp)
  | client op => exact succeeded_of_eq hk hd (by simp)

theorem succeeded_run (h : Run s ts t) (hs : Coherent s) (hcap : 0 < s.cache.capacity)
    (hk : Succeeded s key) (hd : departures ts key = 0) :
    Succeeded t key ∧ startedCount t key = startedCount s key := by
  induction h with
  | start => exact ⟨hk, rfl⟩
  | @step ts t u a hrun hstep ih =>
    rw [departures_append] at hd
    obtain ⟨hk', hcount⟩ := ih (by omega)
    have hlast : departs t u key = false := by
      cases hlast : departs t u key with
      | false => rfl
      | true => simp [hlast] at hd
    have hcap' : 0 < t.cache.capacity := by rwa [capacity_run hrun]
    obtain ⟨hu, hcount'⟩ := succeeded_step hstep (coherent_run hrun hs) hcap' hk' hlast
    exact ⟨hu, hcount'.trans hcount⟩

/-- A key is computed once, and again at most as often as a computation failed or its entry left the
cache. From a success on nothing is started before the entry leaves. -/
theorem startedCount_le {capacity : Nat} (hcap : 0 < capacity)
    (h : Run (.ofCapacity capacity) ts s) (key : String) :
    startedCount s key ≤ 1 + failedCount s key + departures ts key ∧
      (∀ n v t, s.tasks[n]? = some ⟨key, .ended (.value v)⟩ → Step s (.store n) t →
        t.cache.contains key = true) ∧
      ∀ more t, Run s more t → Succeeded s key → departures more key = 0 →
        startedCount t key = startedCount s key := by
  have hcap' : 0 < s.cache.capacity := by rwa [capacity_run h]
  refine ⟨?_, ?_, ?_⟩
  · have hb := (budget_run hcap h key).1
    rw [startedCount_eq]
    omega
  · intro n v t hn ht
    cases ht with
    | store hn' =>
      obtain ⟨rfl, -⟩ := State.task_unique hn hn'
      exact Cache.contains_set hcap'
  · intro more t hm hk hd
    exact (succeeded_run hm (coherent_run h (coherent_ofCapacity capacity)) hcap' hk hd).2

/-- Another client's entry drives the page out of a cache of capacity one, and it is computed again.
-/
theorem startedCount_le_after_eviction : ∃ (ts : List (Transition String String))
    (s : State String String), Run (.ofCapacity 1) ts s ∧ startedCount s "a" = 2 ∧
      departures ts "a" = 1 ∧ startedCount s "a" ≤ 1 + failedCount s "a" + departures ts "a" := by
  have h := (Run.start (s := (.ofCapacity 1 : State String String)))
    |>.step (.arrive "a") |>.step (.look (c := 0) rfl) |>.step (.enter (c := 0) rfl)
    |>.step (.call (n := 0) rfl) |>.step (.finish (n := 0) rfl (.value "page"))
    |>.step (.store (n := 0) rfl) |>.step (.client (.set "b" "other"))
    |>.step (.unregister (n := 0) rfl rfl)
    |>.step (.arrive "a") |>.step (.look (c := 1) rfl) |>.step (.enter (c := 1) rfl)
  exact ⟨_, _, h, rfl, rfl, (startedCount_le (by decide) h "a").1⟩

end Folio.Flight.Protocol
