import Folio.Proofs.Flight.Exclusion

/-!
What becomes of a computation. Its key stays, its outcome is the one its work ended with, and of two
computations for a key the later one is spawned when the earlier one has left the registry.
-/
namespace Folio.Flight.Protocol

universe u v

variable {ν : Type u} {ε : Type v} {s t : State ν ε} {a : Act ν ε} {key k : String} {m n : Nat}
  {p q : Phase ν ε} {o : Outcome ν ε} {ts : List (Transition ν ε)}

/-- The computation that takes a step. -/
def Act.task? : Act ν ε → Option Nat
  | .call n | .finish n _ | .store n | .unregister n | .publish n => some n
  | _ => none

/-- A phase keeps what an earlier one has settled. -/
structure Phase.Later (p q : Phase ν ε) : Prop where
  outcome : ∀ o, p.outcome? = some o → q.outcome? = some o
  closed : p.isOpen = false → q.isOpen = false
  published : ∀ o, p = .published o → q = .published o

theorem later_refl (p : Phase ν ε) : p.Later p := ⟨fun _ h => h, id, fun _ h => h⟩

/-- Where the phase of computation `n` after a step comes from. -/
def Origin (s : State ν ε) (a : Act ν ε) (n : Nat) (k : String) (q : Phase ν ε) : Prop :=
  (∃ p, s.tasks[n]? = some ⟨k, p⟩ ∧ p.Later q ∧
    ∀ o, q.outcome? = some o → p.outcome? = some o ∨ a = .finish n o) ∨
  (n = s.tasks.length ∧ q = .spawned ∧ s.registry.find? k = none)

theorem origin_of_eq (ht : t.tasks = s.tasks) (hn : t.tasks[n]? = some ⟨k, q⟩) :
    Origin s a n k q := by
  rw [ht] at hn
  exact Or.inl ⟨q, hn, later_refl q, fun o ho => Or.inl ho⟩

theorem origin_setTask {p' : Phase ν ε} (h : s.tasks[m]? = some ⟨key, p⟩)
    (ht : t.tasks = s.tasks.set m ⟨key, p'⟩) (hl : p.Later p')
    (ho : ∀ o, p'.outcome? = some o → p.outcome? = some o ∨ a = .finish m o)
    (hn : t.tasks[n]? = some ⟨k, q⟩) : Origin s a n k q := by
  obtain ⟨hm, -⟩ := List.getElem?_eq_some_iff.1 h
  by_cases hmn : m = n
  · subst hmn
    simp only [ht, List.getElem?_set_self hm, Option.some.injEq, Task.mk.injEq] at hn
    obtain ⟨rfl, rfl⟩ := hn
    exact Or.inl ⟨p, h, hl, ho⟩
  · rw [ht, List.getElem?_set_ne hmn] at hn
    exact Or.inl ⟨q, hn, later_refl q, fun o ho => Or.inl ho⟩

theorem origin_append (hr : s.registry.find? key = none)
    (ht : t.tasks = s.tasks ++ [⟨key, .spawned⟩]) (hn : t.tasks[n]? = some ⟨k, q⟩) :
    Origin s a n k q := by
  rw [ht] at hn
  have hlen : n < s.tasks.length + 1 := by
    simpa using (List.getElem?_eq_some_iff.1 hn).1
  by_cases hlt : n < s.tasks.length
  · rw [List.getElem?_append_left hlt] at hn
    exact Or.inl ⟨q, hn, later_refl q, fun o ho => Or.inl ho⟩
  · obtain rfl : n = s.tasks.length := by omega
    simp only [List.getElem?_concat_length, Option.some.injEq, Task.mk.injEq] at hn
    obtain ⟨rfl, rfl⟩ := hn
    exact Or.inr ⟨rfl, rfl, hr⟩

theorem task_origin (h : Step s a t) (hn : t.tasks[n]? = some ⟨k, q⟩) : Origin s a n k q := by
  cases h with
  | arrive key => exact origin_of_eq rfl hn
  | look hc => exact origin_of_eq (by simp) hn
  | @enter c key hc =>
    rcases s.entered_cases c key with ⟨v, -, ht⟩ | ⟨m, -, -, ht⟩ | ⟨-, hm, ht⟩ <;> rw [ht] at hn
    · exact origin_of_eq rfl hn
    · exact origin_of_eq rfl hn
    · exact origin_append hm rfl hn
  | receive hc hn' => exact origin_of_eq rfl hn
  | abandon hc hp => exact origin_of_eq rfl hn
  | call hm =>
    refine origin_setTask hm rfl ⟨?_, ?_, ?_⟩ ?_ hn <;> simp [Phase.outcome?, Phase.isOpen]
  | finish hm o =>
    refine origin_setTask hm rfl ⟨?_, ?_, ?_⟩ ?_ hn <;> simp [Phase.outcome?, Phase.isOpen]
  | store hm =>
    refine origin_setTask hm rfl ⟨?_, ?_, ?_⟩ ?_ hn <;> simp [Phase.outcome?, Phase.isOpen]
  | @unregister m key p o hm hp =>
    have hout := Phase.outcome_of_settled hp
    refine origin_setTask hm rfl ⟨?_, ?_, ?_⟩ ?_ hn
    · intro o' ho'
      exact hout.symm.trans ho'
    · simp [Phase.isOpen_of_settled hp]
    · rintro o' rfl
      simp [Phase.settled?] at hp
    · intro o' ho'
      exact Or.inl (hout.trans ho')
  | publish hm =>
    refine origin_setTask hm rfl ⟨?_, ?_, ?_⟩ ?_ hn <;> simp [Phase.outcome?, Phase.isOpen]
  | client op => exact origin_of_eq (by simp) hn

theorem length_tasks_step (h : Step s a t) : s.tasks.length ≤ t.tasks.length := by
  cases h with
  | @enter c key hc =>
    unfold State.entered
    generalize Flight.enter key s.cache s.registry = e
    obtain ⟨entry, registry, rs⟩ := e
    cases entry <;> simp [State.setLoad]
  | _ => simp [State.setLoad, State.setTask, State.released]

/-- A computation keeps its key and goes on from its phase. -/
theorem task_step (h : Step s a t) (hn : s.tasks[n]? = some ⟨k, p⟩) :
    ∃ q, t.tasks[n]? = some ⟨k, q⟩ ∧ p.Later q := by
  obtain ⟨hlt, -⟩ := List.getElem?_eq_some_iff.1 hn
  obtain ⟨⟨k', q⟩, ht⟩ : ∃ task, t.tasks[n]? = some task :=
    ⟨_, List.getElem?_eq_getElem (Nat.lt_of_lt_of_le hlt (length_tasks_step h))⟩
  rcases task_origin h ht with ⟨p', hp', hl, -⟩ | ⟨hlen, -⟩
  · obtain ⟨rfl, rfl⟩ := State.task_unique hn hp'
    exact ⟨q, ht, hl⟩
  · omega

/-- An outcome is the one that the work of the computation ended with. -/
theorem finish_of_outcome {capacity : Nat} (h : Run (.ofCapacity capacity) ts s)
    (hn : s.tasks[n]? = some ⟨k, p⟩) (ho : p.outcome? = some o) :
    ∃ τ ∈ ts, τ.act = .finish n o := by
  induction h generalizing p with
  | start => simp [State.ofCapacity] at hn
  | @step ts t u a hrun hstep ih =>
    rcases task_origin hstep hn with ⟨p', hp', -, hout⟩ | ⟨-, rfl, -⟩
    · rcases hout o ho with ho' | ha
      · obtain ⟨τ, hτ, hact⟩ := ih hp' ho'
        exact ⟨τ, List.mem_append_left _ hτ, hact⟩
      · exact ⟨_, List.mem_append_right _ (List.mem_singleton_self _), ha⟩
    · simp [Phase.outcome?] at ho

/-- A computation for a key is spawned only when those before it have left the registry. -/
theorem closed_of_lt {capacity : Nat} (h : Run (.ofCapacity capacity) ts s) (hmn : m < n)
    (hm : s.tasks[m]? = some ⟨k, p⟩) (hn : s.tasks[n]? = some ⟨k, q⟩) : p.isOpen = false := by
  induction h generalizing p q with
  | start => simp [State.ofCapacity] at hn
  | @step ts t u a hrun hstep ih =>
    have ht := coherent_run hrun (coherent_ofCapacity capacity)
    rcases task_origin hstep hm with ⟨p', hp', hl, -⟩ | ⟨rfl, -⟩
    · refine hl.closed ?_
      rcases task_origin hstep hn with ⟨q', hq', -⟩ | ⟨-, -, hr⟩
      · exact ih hp' hq'
      · exact ht.isOpen_eq_false hr hp'
    · rcases task_origin hstep hn with ⟨q', hq', -⟩ | ⟨rfl, -⟩
      · have := (List.getElem?_eq_some_iff.1 hq').1
        omega
      · omega

/-- A computation that stored something ended with a value. -/
theorem outcome_of_store {s₀ : State ν ε} (h : Run s₀ ts s) {τ : Transition ν ε} (hτ : τ ∈ ts)
    (ha : τ.act = .store n) :
    ∃ k p v, s.tasks[n]? = some ⟨k, p⟩ ∧ p.outcome? = some (.value v) := by
  induction h with
  | start => simp at hτ
  | @step ts t u a hrun hstep ih =>
    rcases List.mem_append.1 hτ with hτ | hτ
    · obtain ⟨k, p, v, hp, ho⟩ := ih hτ
      obtain ⟨q, hq, hl⟩ := task_step hstep hp
      exact ⟨k, q, v, hq, hl.outcome _ ho⟩
    · obtain rfl := List.mem_singleton.1 hτ
      obtain rfl : a = .store n := ha
      cases hstep with
      | @store _ key v hn =>
        obtain ⟨hlt, -⟩ := List.getElem?_eq_some_iff.1 hn
        exact ⟨key, .stored v, v, List.getElem?_set_self hlt, rfl⟩

theorem cache_eq_of_task (h : Step s a t) (ha : a.task? = some n) (hstore : a ≠ .store n) :
    t.cache = s.cache := by
  cases h with
  | store hn =>
    obtain rfl := Option.some.inj ha
    exact (hstore rfl).elim
  | call hn | finish hn o | unregister hn hp | publish hn => rfl
  | arrive key | look hc | enter hc | receive hc hn | abandon hc hp | client op => cases ha

/-- Only a computation that ended with a value touches the cache. -/
theorem cache_eq_of_failure {s₀ : State ν ε} (h : Run s₀ ts s)
    (hn : s.tasks[n]? = some ⟨k, p⟩) (ho : p.outcome? = some o) (hf : o.isFailure = true)
    {τ : Transition ν ε} (hτ : τ ∈ ts) (ha : τ.act.task? = some n) :
    τ.target.cache = τ.source.cache := by
  refine cache_eq_of_task (step_of_mem h hτ) ha fun hstore => ?_
  obtain ⟨k', p', v, hp', hv⟩ := outcome_of_store h hτ hstore
  obtain ⟨-, rfl⟩ := State.task_unique hn hp'
  rw [ho, Option.some.injEq] at hv
  simp [hv, Outcome.isFailure] at hf

end Folio.Flight.Protocol
