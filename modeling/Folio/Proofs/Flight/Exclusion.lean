import Folio.Proofs.Entries
import Folio.Proofs.Flight.Protocol

/-! The registry and the computations under way mirror each other in every reachable state. -/
namespace Folio.Flight

universe u v

namespace Registry

variable {r : Registry} {key key' : String}

theorem find?_start_self : (r.start key).2.find? key = some r.started :=
  Entries.get?_put_self key r.started r.active

theorem find?_start_of_ne (h : key' ≠ key) : (r.start key).2.find? key' = r.find? key' :=
  Entries.get?_put_of_ne h r.started r.active

theorem find?_finish_self (h : (r.active.map Prod.fst).Nodup) :
    (r.finish key).find? key = none :=
  Entries.get?_erase_self h

theorem find?_finish_of_ne (h : key' ≠ key) : (r.finish key).find? key' = r.find? key' :=
  Entries.get?_erase_of_ne h r.active

end Registry

namespace Protocol

variable {ν : Type u} {ε : Type v} {s t : State ν ε} {a : Act ν ε} {key key' : String}
  {m n : Nat} {p q : Phase ν ε}

/-- Computation `n` was spawned for the key and its registry entry is not removed yet. -/
def UnderWay (s : State ν ε) (key : String) (n : Nat) : Prop :=
  ∃ p : Phase ν ε, s.tasks[n]? = some ⟨key, p⟩ ∧ p.isOpen = true

/-- The registry lists the computations under way, and nothing else. -/
structure Coherent (s : State ν ε) : Prop where
  started_eq : s.registry.started = s.tasks.length
  nodup_keys : (s.registry.active.map Prod.fst).Nodup
  find?_eq_some_iff : ∀ (key : String) (n : Nat),
    s.registry.find? key = some n ↔ UnderWay s key n

/-- What the registry does not list has left it. -/
theorem Coherent.isOpen_eq_false (hs : Coherent s) (hr : s.registry.find? key = none)
    (h : s.tasks[n]? = some ⟨key, p⟩) : p.isOpen = false := by
  cases hp : p.isOpen with
  | false => rfl
  | true =>
    have hlisted := (hs.find?_eq_some_iff key n).2 ⟨p, h, hp⟩
    simp [hr] at hlisted

theorem underWay_iff (h : s.tasks[n]? = some ⟨key, p⟩) :
    UnderWay s key' n ↔ key = key' ∧ p.isOpen = true := by
  constructor
  · rintro ⟨q, hq, ho⟩
    obtain ⟨rfl, rfl⟩ := State.task_unique h hq
    exact ⟨rfl, ho⟩
  · rintro ⟨rfl, ho⟩
    exact ⟨p, h, ho⟩

theorem underWay_setTask (h : s.tasks[n]? = some ⟨key, p⟩)
    (ht : t.tasks = s.tasks.set n ⟨key, q⟩) :
    UnderWay t key' m ↔ if m = n then key = key' ∧ q.isOpen = true else UnderWay s key' m := by
  obtain ⟨hn, -⟩ := List.getElem?_eq_some_iff.1 h
  by_cases hm : m = n
  · subst m
    have hnew : t.tasks[n]? = some ⟨key, q⟩ := by simp [ht, hn]
    rw [if_pos rfl, underWay_iff hnew]
  · simp [UnderWay, ht, hm, Ne.symm hm]

/-- Between its spawning and its removal from the registry a computation changes its phase only. -/
theorem coherent_of_phase (hs : Coherent s) (h : s.tasks[n]? = some ⟨key, p⟩)
    (hp : q.isOpen = p.isOpen) (hr : t.registry = s.registry)
    (ht : t.tasks = s.tasks.set n ⟨key, q⟩) : Coherent t where
  started_eq := by simp [hr, ht, hs.started_eq]
  nodup_keys := by simpa [hr] using hs.nodup_keys
  find?_eq_some_iff := by
    intro key' m
    rw [hr, hs.find?_eq_some_iff, underWay_setTask h ht]
    split
    · next hm =>
      subst m
      rw [underWay_iff h, hp]
    · rfl

theorem coherent_of_eq (hs : Coherent s) (hr : t.registry = s.registry)
    (ht : t.tasks = s.tasks) : Coherent t where
  started_eq := by rw [hr, ht, hs.started_eq]
  nodup_keys := by simpa [hr] using hs.nodup_keys
  find?_eq_some_iff := by
    intro key' m
    rw [hr, hs.find?_eq_some_iff]
    simp [UnderWay, ht]

theorem coherent_start (hs : Coherent s) (hk : s.registry.find? key = none)
    (hr : t.registry = (s.registry.start key).2) (ht : t.tasks = s.tasks ++ [⟨key, .spawned⟩]) :
    Coherent t where
  started_eq := by simp [hr, ht, Registry.start, hs.started_eq]
  nodup_keys := by
    rw [hr]
    exact Entries.nodup_put key _ hs.nodup_keys
  find?_eq_some_iff := by
    intro key' m
    have hold := hs.find?_eq_some_iff key' m
    have hlast : (s.tasks ++ [(⟨key, .spawned⟩ : Task ν ε)])[s.tasks.length]? =
        some ⟨key, .spawned⟩ := by simp
    rw [hr]
    by_cases hkey : key' = key
    · -- No computation of this key was under way, so the new one is the only one.
      subst hkey
      rw [hk] at hold
      have hnot : ¬ UnderWay s key' m := fun hu => by simpa using hold.2 hu
      rw [Registry.find?_start_self, hs.started_eq]
      constructor
      · intro he
        obtain rfl : s.tasks.length = m := Option.some.inj he
        exact ⟨.spawned, by rw [ht, hlast], rfl⟩
      · rintro ⟨p, hp, ho⟩
        rw [ht, List.getElem?_append] at hp
        split at hp
        · exact (hnot ⟨p, hp, ho⟩).elim
        · next hlt =>
          have hm : m - s.tasks.length < 1 := by
            obtain ⟨hm, -⟩ := List.getElem?_eq_some_iff.1 hp
            simpa using hm
          exact congrArg some (by omega)
    · rw [Registry.find?_start_of_ne hkey, hold]
      by_cases hm : m < s.tasks.length
      · simp [UnderWay, ht, List.getElem?_append_left hm]
      · constructor
        · rintro ⟨p, hp, -⟩
          exact (hm (List.getElem?_eq_some_iff.1 hp).1).elim
        · rintro ⟨p, hp, -⟩
          rw [ht, List.getElem?_append_right (by omega), List.getElem?_singleton] at hp
          split at hp
          · simp only [Option.some.injEq, Task.mk.injEq] at hp
            exact (hkey hp.1.symm).elim
          · simp at hp

theorem coherent_finish (hs : Coherent s) (h : s.tasks[n]? = some ⟨key, p⟩)
    (hp : p.isOpen = true) (hq : q.isOpen = false) (hr : t.registry = s.registry.finish key)
    (ht : t.tasks = s.tasks.set n ⟨key, q⟩) : Coherent t where
  started_eq := by simp [hr, ht, Registry.finish, hs.started_eq]
  nodup_keys := by
    rw [hr]
    exact Entries.nodup_erase key hs.nodup_keys
  find?_eq_some_iff := by
    intro key' m
    have hown : s.registry.find? key = some n := (hs.find?_eq_some_iff key n).2 ⟨p, h, hp⟩
    rw [hr, underWay_setTask h ht]
    by_cases hkey : key' = key
    · -- Whatever is under way for the key is `n`, which has just left.
      subst hkey
      rw [Registry.find?_finish_self hs.nodup_keys]
      split
      · simp [hq]
      · next hm =>
        rw [← hs.find?_eq_some_iff, hown]
        simp [Ne.symm hm]
    · rw [Registry.find?_finish_of_ne hkey, hs.find?_eq_some_iff]
      split
      · next hm =>
        subst m
        simp [underWay_iff h, hq, Ne.symm hkey]
      · rfl

theorem coherent_step (h : Step s a t) (hs : Coherent s) : Coherent t := by
  cases h with
  | arrive key => exact coherent_of_eq hs rfl rfl
  | look hc => exact coherent_of_eq hs (by simp) (by simp)
  | @enter c key hc =>
    rcases s.entered_cases c key with ⟨v, -, ht⟩ | ⟨m, -, -, ht⟩ | ⟨-, hm, ht⟩ <;> rw [ht]
    · exact coherent_of_eq hs rfl rfl
    · exact coherent_of_eq hs rfl rfl
    · exact coherent_start hs hm rfl rfl
  | receive hc hn => exact coherent_of_eq hs rfl rfl
  | abandon hc hp => exact coherent_of_eq hs rfl rfl
  | call hn => exact coherent_of_phase hs hn (by rfl) rfl rfl
  | finish hn o => exact coherent_of_phase hs hn (by rfl) rfl rfl
  | store hn => exact coherent_of_phase hs hn (by rfl) rfl rfl
  | unregister hn hp => exact coherent_finish hs hn (Phase.isOpen_of_settled hp) (by rfl) rfl rfl
  | publish hn => exact coherent_of_phase hs hn (by rfl) rfl rfl
  | client op => exact coherent_of_eq hs (by simp) (by simp)

theorem coherent_ofCapacity (capacity : Nat) : Coherent (.ofCapacity capacity : State ν ε) where
  started_eq := rfl
  nodup_keys := List.nodup_nil
  find?_eq_some_iff := by
    intro key n
    simp [State.ofCapacity, Registry.find?, Entries.get?, UnderWay]

theorem coherent_run {ts : List (Transition ν ε)} (h : Run s ts t) (hs : Coherent s) :
    Coherent t := by
  induction h with
  | start => exact hs
  | step _ hstep ih => exact coherent_step hstep ih

theorem coherent_reachable (h : Reachable s) : Coherent s := by
  obtain ⟨capacity, ts, hr⟩ := h
  exact coherent_run hr (coherent_ofCapacity capacity)

/-- At most one computation of a key is spawned and not yet removed, and the registry lists it. So a
computation that leaves, though it removes an entry by the key alone, removes its own. -/
theorem one_computation_per_key (h : Reachable s) (key : String) :
    (∀ m n, UnderWay s key m → UnderWay s key n → m = n) ∧
      (s.registry.contains key = true ↔ ∃ n, UnderWay s key n) ∧
      (∀ n, s.registry.find? key = some n ↔ UnderWay s key n) ∧
      ∀ n p t, s.tasks[n]? = some ⟨key, p⟩ → Step s (.unregister n) t →
        s.registry.find? key = some n ∧ t.registry.find? key = none ∧
          ∀ key', key' ≠ key → t.registry.find? key' = s.registry.find? key' := by
  have hs := coherent_reachable h
  refine ⟨?_, ?_, hs.find?_eq_some_iff key, ?_⟩
  · intro m n hm hn
    rw [← hs.find?_eq_some_iff] at hm hn
    exact Option.some.inj (hm.symm.trans hn)
  · simp only [Registry.contains, Option.isSome_iff_exists, hs.find?_eq_some_iff]
  · intro n p t hn ht
    cases ht with
    | unregister hn' hp =>
      obtain ⟨rfl, rfl⟩ := State.task_unique hn hn'
      refine ⟨(hs.find?_eq_some_iff key n).2 ⟨p, hn, Phase.isOpen_of_settled hp⟩, ?_, ?_⟩
      · exact Registry.find?_finish_self hs.nodup_keys
      · intro key' hkey
        exact Registry.find?_finish_of_ne hkey

/-- A retry starts after the failed computation left and before it published its result. -/
theorem one_computation_per_key_in_retry : ∃ s : State String String, Reachable s ∧
    s.tasks.length = 2 ∧ s.registry.find? "a" = some 1 ∧ ∀ n, UnderWay s "a" n → n = 1 := by
  have h := (Run.start (s := (.ofCapacity 1 : State String String)))
    |>.step (.arrive "a") |>.step (.look (c := 0) rfl) |>.step (.enter (c := 0) rfl)
    |>.step (.call (n := 0) rfl) |>.step (.finish (n := 0) rfl (.failure "no"))
    |>.step (.unregister (n := 0) rfl rfl)
    |>.step (.arrive "a") |>.step (.look (c := 1) rfl) |>.step (.enter (c := 1) rfl)
  refine ⟨_, ⟨1, _, h⟩, rfl, rfl, fun n hn => ?_⟩
  exact (one_computation_per_key ⟨1, _, h⟩ "a").1 n 1 hn ⟨.spawned, rfl, rfl⟩

end Protocol

end Folio.Flight
