import Folio.Proofs.Flight.Lineage

/-!
What a load returns: the value that the cache held under its key at one of its lookups, or the
result of the one computation that it found registered for its key or registered itself.
-/
namespace Folio.Flight.Protocol

universe u v

variable {ν : Type u} {ε : Type v} {s t : State ν ε} {a : Act ν ε} {key k k' : String}
  {c c' m n : Nat} {ts : List (Transition ν ε)} {τ : Transition ν ε}

/-- The cache held the value under the key at the first lookup of a load or in its critical section.
-/
def HeldAtLookup (ts : List (Transition ν ε)) (c : Nat) (key : String) (v : ν) : Prop :=
  ∃ τ ∈ ts, (τ.act = .look c ∨ τ.act = .enter c) ∧ τ.source.cache.peek key = some v

/-- In its critical section the load found computation `n` registered for its key, or registered it.
-/
def Attached (ts : List (Transition ν ε)) (c : Nat) (key : String) (n : Nat) : Prop :=
  ∃ τ ∈ ts, τ.act = .enter c ∧ τ.source.loads[c]? = some ⟨key, .missed⟩ ∧
    τ.source.cache.peek key = none ∧ τ.target.registry.find? key = some n ∧
    (τ.source.registry.find? key = some n ∨
      τ.source.registry.find? key = none ∧ n = τ.source.tasks.length)

/-- The load belongs to computation `n`, and to no other. -/
def AttachedOnly (ts : List (Transition ν ε)) (c : Nat) (key : String) (n : Nat) : Prop :=
  Attached ts c key n ∧ ∀ m, Attached ts c key m → m = n

/-- What the history says of a load at its position. -/
def Account (ts : List (Transition ν ε)) (s : State ν ε) (c : Nat) (key : String) :
    Position ν ε → Prop
  | .arrived | .missed => ∀ n, ¬ Attached ts c key n
  | .waiting n => AttachedOnly ts c key n ∧ ∃ p, s.tasks[n]? = some ⟨key, p⟩
  | .returned r =>
    (∃ v, r = .ok v ∧ HeldAtLookup ts c key v ∧ ∀ n, ¬ Attached ts c key n) ∨
      ∃ n o, AttachedOnly ts c key n ∧ s.tasks[n]? = some ⟨key, .published o⟩ ∧ r = o.result key
  | .abandoned => True

/-- Every load is accounted for, and none that is still to come has a history. -/
structure Accounted (ts : List (Transition ν ε)) (s : State ν ε) : Prop where
  account : ∀ {c key p}, s.loads[c]? = some ⟨key, p⟩ → Account ts s c key p
  attached : ∀ {c key n}, Attached ts c key n → ∃ p, s.loads[c]? = some ⟨key, p⟩

theorem heldAtLookup_append {v : ν} (h : HeldAtLookup ts c key v) :
    HeldAtLookup (ts ++ [τ]) c key v := by
  obtain ⟨σ, hσ, h⟩ := h
  exact ⟨σ, List.mem_append_left _ hσ, h⟩

/-- Only its own critical section attaches a load. -/
theorem attached_append (ha : a ≠ .enter c) :
    Attached (ts ++ [⟨s, a, t⟩]) c key n ↔ Attached ts c key n := by
  constructor
  · rintro ⟨σ, hσ, hact, h⟩
    rcases List.mem_append.1 hσ with hσ | hσ
    · exact ⟨σ, hσ, hact, h⟩
    · obtain rfl := List.mem_singleton.1 hσ
      exact (ha hact).elim
  · rintro ⟨σ, hσ, h⟩
    exact ⟨σ, List.mem_append_left _ hσ, h⟩

/-- A load stays accounted for while others take steps. -/
theorem account_step {p : Position ν ε} (h : Step s a t) (ha : a ≠ .enter c)
    (hp : Account ts s c key p) : Account (ts ++ [⟨s, a, t⟩]) t c key p := by
  have hiff : ∀ n, Attached (ts ++ [⟨s, a, t⟩]) c key n ↔ Attached ts c key n :=
    fun n => attached_append ha
  cases p with
  | arrived | missed => simpa only [Account, hiff] using hp
  | waiting n =>
    obtain ⟨hn, p, htask⟩ := hp
    obtain ⟨q, hq, -⟩ := task_step h htask
    exact ⟨by simpa only [AttachedOnly, hiff] using hn, q, hq⟩
  | returned r =>
    rcases hp with ⟨v, hr, hheld, hnone⟩ | ⟨n, o, hn, htask, hr⟩
    · exact Or.inl ⟨v, hr, heldAtLookup_append hheld, by simpa only [hiff] using hnone⟩
    · obtain ⟨q, hq, hl⟩ := task_step h htask
      obtain rfl := hl.published o rfl
      exact Or.inr ⟨n, o, by simpa only [AttachedOnly, hiff] using hn, hq, hr⟩
  | abandoned => trivial

/-- After a step that changes the position of one load, and attaches none other. -/
theorem accounted_setLoad {p p' : Position ν ε} (h : Step s a t) (hs : Accounted ts s)
    (hc : s.loads[c]? = some ⟨key, p⟩) (hl : t.loads = s.loads.set c ⟨key, p'⟩)
    (ha : ∀ d, d ≠ c → a ≠ .enter d)
    (hp : Account (ts ++ [⟨s, a, t⟩]) t c key p') : Accounted (ts ++ [⟨s, a, t⟩]) t where
  account := by
    intro d k q hd
    by_cases hdc : d = c
    · subst hdc
      obtain ⟨hlt, -⟩ := List.getElem?_eq_some_iff.1 hc
      simp only [hl, List.getElem?_set_self hlt, Option.some.injEq, Load.mk.injEq] at hd
      obtain ⟨rfl, rfl⟩ := hd
      exact hp
    · rw [hl, List.getElem?_set_ne (Ne.symm hdc)] at hd
      exact account_step h (ha d hdc) (hs.account hd)
  attached := by
    rintro d k n ⟨σ, hσ, hact, hsource, hrest⟩
    by_cases hdc : d = c
    · subst hdc
      obtain ⟨hlt, -⟩ := List.getElem?_eq_some_iff.1 hc
      have hkey : key = k := by
        rcases List.mem_append.1 hσ with hσ | hσ
        · obtain ⟨q, hq⟩ := hs.attached ⟨σ, hσ, hact, hsource, hrest⟩
          rw [hc, Option.some.injEq, Load.mk.injEq] at hq
          exact hq.1
        · obtain rfl := List.mem_singleton.1 hσ
          rw [hc, Option.some.injEq, Load.mk.injEq] at hsource
          exact hsource.1
      exact ⟨p', by rw [hl, List.getElem?_set_self hlt, hkey]⟩
    · have hold := (attached_append (ha d hdc)).1 ⟨σ, hσ, hact, hsource, hrest⟩
      obtain ⟨q, hq⟩ := hs.attached hold
      exact ⟨q, by rw [hl, List.getElem?_set_ne (Ne.symm hdc), hq]⟩

/-- After a step that leaves the loads alone. -/
theorem accounted_of_eq (h : Step s a t) (hs : Accounted ts s) (hl : t.loads = s.loads)
    (ha : ∀ c, a ≠ .enter c) : Accounted (ts ++ [⟨s, a, t⟩]) t where
  account := by
    intro d k q hd
    rw [hl] at hd
    exact account_step h (ha d) (hs.account hd)
  attached := by
    intro d k n hd
    rw [hl]
    exact hs.attached ((attached_append (ha d)).1 hd)

theorem accounted_arrive (key : String) (hs : Accounted ts s) :
    Accounted (ts ++ [⟨s, .arrive key, { s with loads := s.loads ++ [⟨key, .arrived⟩] }⟩])
      { s with loads := s.loads ++ [⟨key, .arrived⟩] } where
  account := by
    intro d k q hd
    by_cases hlt : d < s.loads.length
    · rw [List.getElem?_append_left hlt] at hd
      exact account_step (.arrive key) (by simp) (hs.account hd)
    · have hlen : d < s.loads.length + 1 := by
        simpa using (List.getElem?_eq_some_iff.1 hd).1
      obtain rfl : d = s.loads.length := by omega
      simp only [List.getElem?_concat_length, Option.some.injEq, Load.mk.injEq] at hd
      obtain ⟨rfl, rfl⟩ := hd
      intro n hn
      obtain ⟨q, hq⟩ := hs.attached ((attached_append (by simp)).1 hn)
      exact hlt (List.getElem?_eq_some_iff.1 hq).1
  attached := by
    intro d k n hd
    obtain ⟨q, hq⟩ := hs.attached ((attached_append (by simp)).1 hd)
    have hlt := (List.getElem?_eq_some_iff.1 hq).1
    exact ⟨q, by rw [List.getElem?_append_left hlt, hq]⟩

theorem attachedOnly_enter (hc : s.loads[c]? = some ⟨key, .missed⟩)
    (hnone : ∀ m, ¬ Attached ts c key m) (hv : s.cache.peek key = none)
    (ht : t.registry.find? key = some n)
    (hn : s.registry.find? key = some n ∨ s.registry.find? key = none ∧ n = s.tasks.length) :
    AttachedOnly (ts ++ [⟨s, .enter c, t⟩]) c key n := by
  refine ⟨⟨_, List.mem_append_right _ (List.mem_singleton_self _), rfl, hc, hv, ht, hn⟩, ?_⟩
  rintro m ⟨σ, hσ, hact, hsource, hpeek, htarget, hm⟩
  rcases List.mem_append.1 hσ with hσ | hσ
  · exact (hnone m ⟨σ, hσ, hact, hsource, hpeek, htarget, hm⟩).elim
  · obtain rfl := List.mem_singleton.1 hσ
    exact Option.some.inj (htarget.symm.trans ht)

theorem accounted_enter (hs : Accounted ts s) (hcoh : Coherent s)
    (hc : s.loads[c]? = some ⟨key, .missed⟩) :
    Accounted (ts ++ [⟨s, .enter c, s.entered c key⟩]) (s.entered c key) := by
  have hstep : Step s (.enter c) (s.entered c key) := .enter hc
  have hother : ∀ d, d ≠ c → (.enter c : Act ν ε) ≠ .enter d := by
    rintro d hd he
    exact hd (Act.enter.inj he).symm
  have hnone : ∀ m, ¬ Attached ts c key m := hs.account hc
  rcases s.entered_cases c key with ⟨v, hv, ht⟩ | ⟨m, hv, hm, ht⟩ | ⟨hv, hm, ht⟩ <;>
    rw [ht] at hstep ⊢
  · refine accounted_setLoad hstep hs hc rfl hother (Or.inl ⟨v, rfl, ?_, ?_⟩)
    · exact ⟨_, List.mem_append_right _ (List.mem_singleton_self _), Or.inr rfl, hv⟩
    · rintro m ⟨σ, hσ, hact, hsource, hpeek, hm⟩
      rcases List.mem_append.1 hσ with hσ | hσ
      · exact hnone m ⟨σ, hσ, hact, hsource, hpeek, hm⟩
      · obtain rfl := List.mem_singleton.1 hσ
        simp [hv] at hpeek
  · obtain ⟨p, hp, -⟩ := (hcoh.find?_eq_some_iff key m).1 hm
    refine accounted_setLoad hstep hs hc rfl hother ⟨?_, p, hp⟩
    exact attachedOnly_enter hc hnone hv hm (Or.inl hm)
  · refine accounted_setLoad hstep hs hc rfl hother ⟨?_, .spawned, ?_⟩
    · exact attachedOnly_enter hc hnone hv Registry.find?_start_self
        (Or.inr ⟨hm, hcoh.started_eq⟩)
    · simp [hcoh.started_eq]

theorem accounted_step (h : Step s a t) (hcoh : Coherent s) (hs : Accounted ts s) :
    Accounted (ts ++ [⟨s, a, t⟩]) t := by
  have hstep := h
  cases h with
  | arrive key => exact accounted_arrive key hs
  | @look c key hc =>
    have hnone : ∀ n, ¬ Attached (ts ++ [⟨s, .look c, s.looked c key⟩]) c key n := by
      intro n hn
      exact hs.account hc n ((attached_append (by simp)).1 hn)
    refine accounted_setLoad hstep hs hc State.looked_loads (by simp) ?_
    cases hv : s.cache.peek key with
    | some v =>
      refine Or.inl ⟨v, rfl, ?_, hnone⟩
      exact ⟨_, List.mem_append_right _ (List.mem_singleton_self _), Or.inl rfl, hv⟩
    | none => exact hnone
  | enter hc => exact accounted_enter hs hcoh hc
  | @receive c n key key' o hc hn =>
    obtain ⟨hatt, p, hp⟩ := hs.account hc
    obtain ⟨rfl, -⟩ := State.task_unique hn hp
    refine accounted_setLoad hstep hs hc rfl (by simp) (Or.inr ⟨n, o, ?_, hn, rfl⟩)
    have hne : (.receive c : Act ν ε) ≠ .enter c := by simp
    simpa only [AttachedOnly, attached_append hne] using hatt
  | abandon hc hp => exact accounted_setLoad hstep hs hc rfl (by simp) trivial
  | call hn | finish hn o | store hn | unregister hn hp | publish hn | client op =>
    exact accounted_of_eq hstep hs rfl (by simp)

theorem accounted_run {capacity : Nat} (h : Run (.ofCapacity capacity) ts s) :
    Accounted ts s := by
  induction h with
  | start =>
    constructor
    · intro c key p hc
      simp [State.ofCapacity] at hc
    · rintro c key n ⟨σ, hσ, -⟩
      simp at hσ
  | step hrun hstep ih =>
    exact accounted_step hstep (coherent_run hrun (coherent_ofCapacity capacity)) ih

/-- A load that belongs to a computation returns what that published. -/
theorem published_of_attached {capacity : Nat} (h : Run (.ofCapacity capacity) ts s)
    (hn : Attached ts c k n) {r : Except (Fault ε) ν}
    (hc : s.loads[c]? = some ⟨k, .returned r⟩) :
    ∃ o, s.tasks[n]? = some ⟨k, .published o⟩ ∧ r = o.result k := by
  rcases (accounted_run h).account hc with ⟨v, -, -, hnone⟩ | ⟨m, o, ⟨-, honly⟩, hm, hr⟩
  · exact (hnone n hn).elim
  · obtain rfl := honly n hn
    exact ⟨o, hm, hr⟩

/-- When the last computation for a key has left the registry, the key is not registered. -/
theorem find?_eq_none_of_closed {capacity : Nat} {p : Phase ν ε}
    (h : Run (.ofCapacity capacity) ts s) (hn : s.tasks[n]? = some ⟨k, p⟩)
    (hp : p.isOpen = false) (hlast : ∀ m q, n < m → s.tasks[m]? ≠ some ⟨k, q⟩) :
    s.registry.find? k = none := by
  cases hm : s.registry.find? k with
  | none => rfl
  | some m =>
    obtain ⟨q, hq, ho⟩ :=
      ((coherent_run h (coherent_ofCapacity capacity)).find?_eq_some_iff k m).1 hm
    rcases Nat.lt_trichotomy m n with hlt | rfl | hlt
    · have := closed_of_lt h hlt hq hn
      simp [ho] at this
    · obtain ⟨-, rfl⟩ := State.task_unique hn hq
      simp [hp] at ho
    · exact (hlast m q hlt hq).elim

/-- Every result comes from one of the load's lookups or from the one computation it belongs to, and
those of one computation agree. A computation that fails leaves the cache alone, and the next load
of its key that finds no entry starts a fresh one. -/
theorem load_result {capacity : Nat} (h : Run (.ofCapacity capacity) ts s) :
    (∀ c k r, s.loads[c]? = some ⟨k, .returned r⟩ →
      (∃ v, r = .ok v ∧ HeldAtLookup ts c k v) ∨
        ∃ n o, AttachedOnly ts c k n ∧ s.tasks[n]? = some ⟨k, .published o⟩ ∧
          (∃ τ ∈ ts, τ.act = .finish n o) ∧ r = o.result k) ∧
      (∀ n c c' k k' r r', Attached ts c k n → Attached ts c' k' n →
        s.loads[c]? = some ⟨k, .returned r⟩ → s.loads[c']? = some ⟨k', .returned r'⟩ →
          k = k' ∧ r = r') ∧
      (∀ n k p o, s.tasks[n]? = some ⟨k, p⟩ → p.outcome? = some o → o.isFailure = true →
        ∀ τ ∈ ts, τ.act.task? = some n → τ.target.cache = τ.source.cache) ∧
      ∀ (n : Nat) (k : String) (p : Phase ν ε), s.tasks[n]? = some ⟨k, p⟩ → p.isOpen = false →
        (∀ (m : Nat) (q : Phase ν ε), n < m → s.tasks[m]? ≠ some ⟨k, q⟩) →
          s.registry.contains k = false ∧
            ∀ c, s.loads[c]? = some ⟨k, .missed⟩ → s.cache.peek k = none →
              ∃ t, Step s (.enter c) t ∧
                t.loads[c]? = some ⟨k, .waiting s.tasks.length⟩ ∧
                t.tasks = s.tasks ++ [⟨k, .spawned⟩] := by
  refine ⟨?_, ?_, ?_, ?_⟩
  · intro c k r hc
    rcases (accounted_run h).account hc with ⟨v, hr, hheld, -⟩ | ⟨n, o, hn, ho, hr⟩
    · exact Or.inl ⟨v, hr, hheld⟩
    · exact Or.inr ⟨n, o, hn, ho, finish_of_outcome h ho rfl, hr⟩
  · intro n c c' k k' r r' hn hn' hc hc'
    obtain ⟨o, ho, hr⟩ := published_of_attached h hn hc
    obtain ⟨o', ho', hr'⟩ := published_of_attached h hn' hc'
    obtain ⟨rfl, hsame⟩ := State.task_unique ho ho'
    obtain rfl := Phase.published.inj hsame
    exact ⟨rfl, hr.trans hr'.symm⟩
  · intro n k p o hn ho hf τ hτ ha
    exact cache_eq_of_failure h hn ho hf hτ ha
  · intro n k p hn hp hlast
    have hnone := find?_eq_none_of_closed h hn hp hlast
    refine ⟨by simp [Registry.contains, hnone], fun c hc hv => ?_⟩
    have hstarted := (coherent_run h (coherent_ofCapacity capacity)).started_eq
    refine ⟨_, .enter hc, ?_, ?_⟩
    · obtain ⟨hlt, -⟩ := List.getElem?_eq_some_iff.1 hc
      simp [State.entered_of_none hv hnone, hlt, hstarted]
    · simp [State.entered_of_none hv hnone]

/-- Two loads share a failure that is published after a third load has started a retry. -/
theorem load_result_of_shared_failure : ∃ (ts : List (Transition String String))
    (s : State String String), Run (.ofCapacity 1) ts s ∧ s.registry.find? "a" = some 1 ∧
      (∀ r, s.loads[1]? = some ⟨"a", .returned r⟩ →
        (∃ v, r = .ok v ∧ HeldAtLookup ts 1 "a" v) ∨
          ∃ n o, AttachedOnly ts 1 "a" n ∧ s.tasks[n]? = some ⟨"a", .published o⟩ ∧
            (∃ τ ∈ ts, τ.act = .finish n o) ∧ r = o.result "a") ∧
      s.loads[1]? = some ⟨"a", .returned (.error (.failed "no"))⟩ := by
  have h := (Run.start (s := (.ofCapacity 1 : State String String)))
    |>.step (.arrive "a") |>.step (.arrive "a") |>.step (.look (c := 0) rfl)
    |>.step (.look (c := 1) rfl) |>.step (.enter (c := 0) rfl) |>.step (.enter (c := 1) rfl)
    |>.step (.call (n := 0) rfl) |>.step (.finish (n := 0) rfl (.failure "no"))
    |>.step (.unregister (n := 0) rfl rfl)
    |>.step (.arrive "a") |>.step (.look (c := 2) rfl) |>.step (.enter (c := 2) rfl)
    |>.step (.publish (n := 0) rfl) |>.step (.receive (c := 0) rfl rfl)
    |>.step (.receive (c := 1) rfl rfl)
  exact ⟨_, _, h, rfl, fun r => (load_result h).1 1 "a" r, rfl⟩

end Folio.Flight.Protocol
