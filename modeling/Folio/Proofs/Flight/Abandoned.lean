import Folio.Proofs.Flight.Protocol
import Mathlib.Data.List.Forall2

/-!
What would have happened if some loads had not been abandoned while they waited. The run without
those steps differs from the run that was in nothing but the positions of these very loads, which
still wait.
-/
namespace Folio.Flight.Protocol

universe u v

variable {ν : Type u} {ε : Type v} {s t s' t' : State ν ε} {a : Act ν ε}
  {ts us us' : List (Transition ν ε)} {A : Nat → Prop}

/-- Whether a load of the set is abandoned. -/
def Act.givesUp (A : Nat → Prop) [DecidablePred A] : Act ν ε → Bool
  | .abandon c => decide (A c)
  | _ => false

/-- The state `t` is `s` but for loads of the set that are abandoned in `s` and wait in `t`. -/
structure Spared (A : Nat → Prop) (s t : State ν ε) : Prop where
  cache : t.cache = s.cache
  registry : t.registry = s.registry
  tasks : t.tasks = s.tasks
  reports : t.reports = s.reports
  length_loads : t.loads.length = s.loads.length
  loads : ∀ c, t.loads[c]? = s.loads[c]? ∨ A c ∧ ∃ key n,
    s.loads[c]? = some ⟨key, .abandoned⟩ ∧ t.loads[c]? = some ⟨key, .waiting n⟩

theorem spared_refl (A : Nat → Prop) (s : State ν ε) : Spared A s s :=
  ⟨rfl, rfl, rfl, rfl, rfl, fun _ => .inl rfl⟩

namespace Spared

theorem eq_withLoads (h : Spared A s t) : t = { s with loads := t.loads } := by
  obtain ⟨hcache, hregistry, htasks, hreports, -, -⟩ := h
  cases s
  cases t
  simp_all

/-- The results of all other loads are the same. -/
theorem loads_of_not (h : Spared A s t) {c : Nat} (hc : ¬ A c) : t.loads[c]? = s.loads[c]? :=
  (h.loads c).resolve_right fun hspared => hc hspared.1

/-- A load that is not abandoned is where it was. -/
theorem loads_of_ne (h : Spared A s t) {c : Nat} {key : String} {p : Position ν ε}
    (hc : s.loads[c]? = some ⟨key, p⟩) (hp : p ≠ .abandoned) : t.loads[c]? = some ⟨key, p⟩ := by
  rcases h.loads c with heq | ⟨-, key', n, habandoned, -⟩
  · exact heq.trans hc
  · rw [hc, Option.some.injEq, Load.mk.injEq] at habandoned
    exact (hp habandoned.2).elim

/-- After a step that leaves the loads alone. -/
theorem of_loads_eq (h : Spared A s t) (hl : s'.loads = s.loads) :
    Spared A s' { s' with loads := t.loads } where
  cache := rfl
  registry := rfl
  tasks := rfl
  reports := rfl
  length_loads := h.length_loads.trans (congrArg List.length hl.symm)
  loads c := hl ▸ h.loads c

/-- After a step that moves one load. -/
theorem of_loads_set (h : Spared A s t) {c : Nat} {l : Load ν ε} (hl : s'.loads = s.loads.set c l) :
    Spared A s' { s' with loads := t.loads.set c l } where
  cache := rfl
  registry := rfl
  tasks := rfl
  reports := rfl
  length_loads := by simp [hl, h.length_loads]
  loads d := by
    rw [hl]
    by_cases hd : c = d
    · subst hd
      simp [List.getElem?_set, h.length_loads]
    · simpa only [List.getElem?_set_ne hd] using h.loads d

theorem arrive (h : Spared A s t) (l : Load ν ε) :
    Spared A { s with loads := s.loads ++ [l] } { s with loads := t.loads ++ [l] } where
  cache := rfl
  registry := rfl
  tasks := rfl
  reports := rfl
  length_loads := by simp [h.length_loads]
  loads d := by
    by_cases hd : d < s.loads.length
    · rw [List.getElem?_append_left hd, List.getElem?_append_left (h.length_loads ▸ hd)]
      exact h.loads d
    · rw [List.getElem?_append_right (Nat.le_of_not_lt hd),
        List.getElem?_append_right (h.length_loads ▸ Nat.le_of_not_lt hd), h.length_loads]
      exact .inl rfl

/-- Where a load of the set is abandoned it waits on instead. -/
theorem giveUp (h : Spared A s t) {c n : Nat} {key : String} (hA : A c)
    (hc : s.loads[c]? = some ⟨key, .waiting n⟩) :
    Spared A (s.setLoad c key .abandoned) t where
  cache := h.cache
  registry := h.registry
  tasks := h.tasks
  reports := h.reports
  length_loads := by simp [State.setLoad, h.length_loads]
  loads d := by
    by_cases hd : c = d
    · subst hd
      have hlt : c < s.loads.length := (List.getElem?_eq_some_iff.1 hc).fst
      exact .inr ⟨hA, key, n, List.getElem?_set_self hlt, h.loads_of_ne hc (by simp)⟩
    · simpa only [State.setLoad, List.getElem?_set_ne hd] using h.loads d

end Spared

/-! What a step does to the loads does not depend on the other loads -/

theorem looked_withLoads (s : State ν ε) (c : Nat) (key : String) :
    ∃ l, (s.looked c key).loads = s.loads.set c l ∧
      ∀ ls, { s with loads := ls }.looked c key =
        { s.looked c key with loads := ls.set c l } := by
  unfold State.looked
  dsimp only
  split
  · exact ⟨_, rfl, fun _ => rfl⟩
  · exact ⟨_, rfl, fun _ => rfl⟩

theorem entered_withLoads (s : State ν ε) (c : Nat) (key : String) :
    ∃ l, (s.entered c key).loads = s.loads.set c l ∧
      ∀ ls, { s with loads := ls }.entered c key =
        { s.entered c key with loads := ls.set c l } := by
  unfold State.entered
  dsimp only
  generalize Flight.enter key s.cache s.registry = e
  obtain ⟨entry, registry, rs⟩ := e
  cases entry with
  | answered v | joined n | started n => exact ⟨_, rfl, fun _ => rfl⟩

/-- A step that gives up no load of the set can be taken where such loads still wait, and it leads to
where they still wait. -/
theorem exists_spared_step [DecidablePred A] (h : Step s a s') (ha : a.givesUp A = false)
    (hs : Spared A s t) : ∃ t', Step t a t' ∧ Spared A s' t' := by
  have hsame : ∀ {c : Nat} {key : String} {p : Position ν ε}, s.loads[c]? = some ⟨key, p⟩ →
      p ≠ .abandoned → t.loads[c]? = some ⟨key, p⟩ := hs.loads_of_ne
  obtain ⟨ls, rfl⟩ : ∃ ls, t = { s with loads := ls } := ⟨t.loads, hs.eq_withLoads⟩
  cases h with
  | arrive key => exact ⟨_, .arrive key, hs.arrive _⟩
  | @look c key hc =>
    obtain ⟨l, hl, hlooked⟩ := looked_withLoads s c key
    exact ⟨_, .look (hsame hc nofun), hlooked ls ▸ hs.of_loads_set hl⟩
  | @enter c key hc =>
    obtain ⟨l, hl, hentered⟩ := entered_withLoads s c key
    exact ⟨_, .enter (hsame hc nofun), hentered ls ▸ hs.of_loads_set hl⟩
  | receive hc hn => exact ⟨_, .receive (hsame hc nofun) hn, hs.of_loads_set rfl⟩
  | @abandon c key p hc hp =>
    have hA : ¬ A c := of_decide_eq_false ha
    exact ⟨_, .abandon ((hs.loads_of_not hA).trans hc) hp, hs.of_loads_set rfl⟩
  | call hn => exact ⟨_, .call hn, hs.of_loads_eq rfl⟩
  | finish hn o => exact ⟨_, .finish (s := { s with loads := ls }) hn o, hs.of_loads_eq rfl⟩
  | store hn => exact ⟨_, .store hn, hs.of_loads_eq rfl⟩
  | unregister hn hp => exact ⟨_, .unregister hn hp, hs.of_loads_eq rfl⟩
  | publish hn => exact ⟨_, .publish hn, hs.of_loads_eq rfl⟩
  | client op => exact ⟨_, .client op, hs.of_loads_eq rfl⟩

/-! Acts determine the run -/

theorem step_unique (h : Step s a t) (h' : Step s a t') : t = t' := by
  cases h with
  | arrive key => cases h'; rfl
  | look hc =>
    cases h' with
    | look hc' =>
      obtain ⟨rfl, -⟩ := Load.mk.inj (Option.some.inj (hc.symm.trans hc'))
      rfl
  | enter hc =>
    cases h' with
    | enter hc' =>
      obtain ⟨rfl, -⟩ := Load.mk.inj (Option.some.inj (hc.symm.trans hc'))
      rfl
  | receive hc hn =>
    cases h' with
    | receive hc' hn' =>
      obtain ⟨rfl, hwaiting⟩ := Load.mk.inj (Option.some.inj (hc.symm.trans hc'))
      obtain rfl := Position.waiting.inj hwaiting
      obtain ⟨rfl, hpublished⟩ := State.task_unique hn hn'
      obtain rfl := Phase.published.inj hpublished
      rfl
  | abandon hc hp =>
    cases h' with
    | abandon hc' hp' =>
      obtain ⟨rfl, -⟩ := Load.mk.inj (Option.some.inj (hc.symm.trans hc'))
      rfl
  | call hn =>
    cases h' with
    | call hn' =>
      obtain ⟨rfl, -⟩ := State.task_unique hn hn'
      rfl
  | finish hn o =>
    cases h' with
    | finish hn' o' =>
      obtain ⟨rfl, -⟩ := State.task_unique hn hn'
      rfl
  | store hn =>
    cases h' with
    | store hn' =>
      obtain ⟨rfl, hended⟩ := State.task_unique hn hn'
      obtain rfl := Outcome.value.inj (Phase.ended.inj hended)
      rfl
  | unregister hn hp =>
    cases h' with
    | unregister hn' hp' =>
      obtain ⟨rfl, rfl⟩ := State.task_unique hn hn'
      obtain rfl := Option.some.inj (hp.symm.trans hp')
      rfl
  | publish hn =>
    cases h' with
    | publish hn' =>
      obtain ⟨rfl, hleft⟩ := State.task_unique hn hn'
      obtain rfl := Phase.unregistered.inj hleft
      rfl
  | client op => cases h'; rfl

theorem run_nil (h : Run s ts t) (hts : ts = []) : t = s := by
  cases h with
  | start => rfl
  | step _ _ => simp at hts

theorem run_unique (h : Run s us t) (h' : Run s us' t')
    (hacts : us'.map Transition.act = us.map Transition.act) : us' = us ∧ t' = t := by
  induction h generalizing us' t' with
  | start =>
    have hnil : us' = [] := List.map_eq_nil_iff.1 hacts
    exact ⟨hnil, run_nil h' hnil⟩
  | @step us t u a _ hstep ih =>
    cases h' with
    | start => simp at hacts
    | @step us' t' u' a' hrun' hstep' =>
      simp only [List.map_append, List.map_cons, List.map_nil] at hacts
      obtain ⟨hfront, hlast⟩ := List.append_inj' hacts rfl
      obtain ⟨rfl, rfl⟩ := ih hrun' hfront
      obtain rfl : a' = a := by simpa using hlast
      obtain rfl := step_unique hstep hstep'
      exact ⟨rfl, rfl⟩

/-- The same act between states that are the same but for loads of the set. -/
structure SparedStep (A : Nat → Prop) (τ σ : Transition ν ε) : Prop where
  act : σ.act = τ.act
  source : Spared A τ.source σ.source
  target : Spared A τ.target σ.target

/-- Any set of loads that are abandoned while they wait, for a computation that they registered or
joined, could as well go on waiting: the other steps make a run of their own, the only one with these
acts, and step by step it has the same cache, registry, computations, reports and other loads. -/
theorem abandonment_invisible [DecidablePred A] (h : Run s ts t)
    (hA : ∀ τ ∈ ts, ∀ c, A c → τ.act = .abandon c →
      ∃ key n, τ.source.loads[c]? = some ⟨key, .waiting n⟩) :
    ∃ us t', Run s us t' ∧ Spared A t t' ∧
      List.Forall₂ (SparedStep A) (ts.filter fun τ => !τ.act.givesUp A) us ∧
      ∀ us' u, Run s us' u → us'.map Transition.act = us.map Transition.act →
        us' = us ∧ u = t' := by
  obtain ⟨us, t', hrun, hspared, hsteps⟩ : ∃ us t', Run s us t' ∧ Spared A t t' ∧
      List.Forall₂ (SparedStep A) (ts.filter fun τ => !τ.act.givesUp A) us := by
    induction h with
    | start => exact ⟨[], s, .start, spared_refl A s, .nil⟩
    | @step ts t u a _ hstep ih =>
      rw [List.forall_mem_append, List.forall_mem_singleton] at hA
      obtain ⟨us, t', hrun, hspared, hsteps⟩ := ih hA.1
      cases ha : a.givesUp A with
      | true =>
        -- only the run that was takes this step
        refine ⟨us, t', hrun, ?_, by simpa [ha] using hsteps⟩
        cases hstep with
        | @abandon c key p hc hp =>
          have hc' : A c := of_decide_eq_true ha
          obtain ⟨key', n, hwaiting⟩ := hA.2 c hc' rfl
          obtain ⟨rfl, rfl⟩ := Load.mk.inj (Option.some.inj (hc.symm.trans hwaiting))
          exact hspared.giveUp hc' hc
        | _ => cases ha
      | false =>
        obtain ⟨u', hstep', hspared'⟩ := exists_spared_step hstep ha hspared
        refine ⟨_, u', hrun.step hstep', hspared', ?_⟩
        have hlast : List.Forall₂ (SparedStep A) [⟨t, a, u⟩] [⟨t', a, u'⟩] :=
          .cons ⟨rfl, hspared, hspared'⟩ .nil
        simpa [ha] using List.rel_append hsteps hlast
  exact ⟨us, t', hrun, hspared, hsteps, fun us' u hrun' hacts => run_unique hrun hrun' hacts⟩

/-- The load that started a computation is abandoned, and another one joins the computation. -/
theorem abandonment_invisible_to_joined :
    ∃ (ts : List (Transition String String)) (t : State String String),
      Run (.ofCapacity 1) ts t ∧
      (∀ τ ∈ ts, ∀ c, c = 0 → τ.act = .abandon c →
        ∃ key n, τ.source.loads[c]? = some ⟨key, .waiting n⟩) ∧
      t.cache.keys = ["a"] ∧
      t.loads = [⟨"a", .abandoned⟩, ⟨"a", .returned (.ok "page")⟩] ∧
      ∃ us t', Run (.ofCapacity 1) us t' ∧ Spared (· = 0) t t' ∧
        List.Forall₂ (SparedStep (· = 0)) (ts.filter fun τ => !τ.act.givesUp (· = 0)) us ∧
        ∀ us' u, Run (.ofCapacity 1) us' u → us'.map Transition.act = us.map Transition.act →
          us' = us ∧ u = t' := by
  obtain ⟨ts, t, hrun, hwaiting, hkeys, hloads⟩ :
      ∃ (ts : List (Transition String String)) (t : State String String),
        Run (.ofCapacity 1) ts t ∧
        (∀ τ ∈ ts, ∀ c, c = 0 → τ.act = .abandon c →
          ∃ key n, τ.source.loads[c]? = some ⟨key, .waiting n⟩) ∧
        t.cache.keys = ["a"] ∧
        t.loads = [⟨"a", .abandoned⟩, ⟨"a", .returned (.ok "page")⟩] := by
    have h := (Run.start (s := (.ofCapacity 1 : State String String)))
      |>.step (.arrive "a") |>.step (.look (c := 0) rfl) |>.step (.enter (c := 0) rfl)
      |>.step (.call (n := 0) rfl) |>.step (.abandon (c := 0) rfl rfl)
      |>.step (.arrive "a") |>.step (.look (c := 1) rfl) |>.step (.enter (c := 1) rfl)
      |>.step (.finish (n := 0) rfl (.value "page")) |>.step (.store (n := 0) rfl)
      |>.step (.unregister (n := 0) rfl rfl) |>.step (.publish (n := 0) rfl)
      |>.step (.receive (c := 1) rfl rfl)
    refine ⟨_, _, h, ?_, rfl, rfl⟩
    simp only [List.nil_append, List.cons_append, List.forall_mem_cons]
    refine ⟨nofun, nofun, nofun, nofun, ?_, nofun, nofun, nofun, nofun, nofun, nofun, nofun, nofun,
      List.forall_mem_nil _⟩
    rintro c rfl -
    exact ⟨"a", 0, rfl⟩
  exact ⟨ts, t, hrun, hwaiting, hkeys, hloads, abandonment_invisible hrun hwaiting⟩

end Folio.Flight.Protocol
