import Folio.Proofs.Page.Capacities
import Folio.Proofs.Pool.Hidden
import Folio.Proofs.Site.Indistinct

/-! Sites that differ in their pools only. Whatever is done at one of them and at the other comes to
the same, and the sites stay alike. -/
namespace Folio

namespace Site

/-- Sites that differ at most in their pools: in what these may keep, what they keep and what was
reported of them. -/
inductive Alike (s : Site) : Site → Prop
  | mk (nodeCapacity contextCapacity : Nat) {nodes : Pool Node} {contexts : Pool Context}
    {meter : Meter} (hnodes : Pool.Kept Pool.nodeNames s.nodes)
    (hnodes' : Pool.Kept Pool.nodeNames nodes) (hcontexts : Pool.Kept Pool.contextNames s.contexts)
    (hcontexts' : Pool.Kept Pool.contextNames contexts) (hmeter : s.meter.Alike meter) :
    Alike s { s with
      settings := s.settings.withCapacities nodeCapacity contextCapacity, nodes, contexts, meter }

/-- Holds of a site whose pools have kept nothing of what was given back to them. -/
structure Spotless (s : Site) : Prop where
  nodes : ∀ n ∈ s.nodes.free, n = Reusable.fresh
  contexts : ∀ c ∈ s.contexts.free, c = Reusable.fresh

namespace Alike

variable {s s' : Site}

theorem report (h : Alike s s') (rs : List Report) : Alike (s.report rs) (s'.report rs) := by
  obtain ⟨n, c, hnodes, hnodes', hcontexts, hcontexts', hmeter⟩ := h
  exact .mk n c hnodes hnodes' hcontexts hcontexts' (Meter.overlooks_isPooling.takeAll hmeter rs)

/-- Sites may be opened with other capacities. -/
theorem ofSettings (settings : Settings) (sink : Sink) (firstRun n c n' c' : Nat) :
    Alike (.ofSettings (settings.withCapacities n c) sink firstRun)
      (.ofSettings (settings.withCapacities n' c') sink firstRun) := by
  refine .mk n' c' (Pool.kept_empty ..) (Pool.kept_empty ..) (Pool.kept_empty ..)
    (Pool.kept_empty ..) ?_
  exact (Meter.Alike.refl { sink }).log rfl

/-- What is free in the pools of either site is as good as new. -/
theorem spotless (h : Alike s s') : s.Spotless ∧ s'.Spotless := by
  obtain ⟨n, c, hnodes, hnodes', hcontexts, hcontexts'⟩ := h
  exact ⟨⟨fun _ => hnodes.reached.eq_fresh, fun _ => hcontexts.reached.eq_fresh⟩,
    ⟨fun _ => hnodes'.reached.eq_fresh, fun _ => hcontexts'.reached.eq_fresh⟩⟩

theorem settings_eq (h : Alike s s') : ∃ n c, s'.settings = s.settings.withCapacities n c := by
  obtain ⟨n, c⟩ := h
  exact ⟨n, c, rfl⟩

theorem advise (h : Alike s s') (message : String) (fields : List (String × String)) :
    Alike (s.advise message fields) (s'.advise message fields) := by
  have hmode : s'.settings.isProduction = s.settings.isProduction := by
    cases h
    rfl
  unfold Site.advise
  rw [hmode]
  split
  · exact h
  · exact h.report _

/-! Pools -/

/-- An instance from the pool of nodes is as good as new at both sites. -/
theorem acquireNode (h : Alike s s') : Agree Alike s.acquireNode s'.acquireNode := by
  obtain ⟨n, c, hnodes, hnodes', hcontexts, hcontexts', hmeter⟩ := h
  have hreports := hnodes.isPooling_acquire (List.subset_append_left ..)
  have hreports' := hnodes'.isPooling_acquire (List.subset_append_left ..)
  refine ⟨Reusable.fresh, _, _, Prod.ext hnodes.reached.acquire_eq_fresh rfl,
    Prod.ext hnodes'.reached.acquire_eq_fresh rfl, ?_⟩
  exact .mk n c hnodes.acquire hnodes'.acquire hcontexts hcontexts'
    (Meter.overlooks_isPooling.takeAll_of_forall hmeter hreports hreports')

theorem recycleAll (h : Alike s s') (ns : List Node) :
    Alike (s.recycleAll ns) (s'.recycleAll ns) := by
  obtain ⟨n, c, hnodes, hnodes', hcontexts, hcontexts', hmeter⟩ := h
  have hback := hnodes.recycleAll (ns.map Node.toChild)
  have hback' := hnodes'.recycleAll (ns.map Node.toChild)
  exact .mk n c hback.1 hback'.1 hcontexts hcontexts'
    (Meter.overlooks_isPooling.takeAll_of_forall hmeter hback.2 hback'.2)

/-- A context from the pool is as good as new at both sites. -/
theorem takeContext (h : Alike s s') :
    ∃ c contexts rs contexts' rs', s.contexts.acquire = (c, contexts, rs) ∧
      s'.contexts.acquire = (c, contexts', rs') ∧
      Alike ({ s with contexts }.report rs) ({ s' with contexts := contexts' }.report rs') := by
  obtain ⟨n, c, hnodes, hnodes', hcontexts, hcontexts', hmeter⟩ := h
  have hreports := hcontexts.isPooling_acquire (List.subset_append_right ..)
  have hreports' := hcontexts'.isPooling_acquire (List.subset_append_right ..)
  refine ⟨Reusable.fresh, _, _, _, _, Prod.ext hcontexts.reached.acquire_eq_fresh rfl,
    Prod.ext hcontexts'.reached.acquire_eq_fresh rfl, ?_⟩
  exact .mk n c hnodes hnodes' hcontexts.acquire hcontexts'.acquire
    (Meter.overlooks_isPooling.takeAll_of_forall hmeter hreports hreports')

theorem giveContext (h : Alike s s') (context : Context) :
    Alike ({ s with contexts := (s.contexts.release context).2.1 }.report
        (s.contexts.release context).2.2)
      ({ s' with contexts := (s'.contexts.release context).2.1 }.report
        (s'.contexts.release context).2.2) := by
  obtain ⟨n, c, hnodes, hnodes', hcontexts, hcontexts', hmeter⟩ := h
  have hreports := hcontexts.isPooling_release (List.subset_append_right ..) context
  have hreports' := hcontexts'.isPooling_release (List.subset_append_right ..) context
  exact .mk n c hnodes hnodes' (hcontexts.release context) (hcontexts'.release context)
    (Meter.overlooks_isPooling.takeAll_of_forall hmeter hreports hreports')

theorem reset (h : Alike s s') : Alike s.reset s'.reset := by
  obtain ⟨n, c, hnodes, hnodes', hcontexts, hcontexts', hmeter⟩ := h
  exact .mk n c hnodes.clear hnodes'.clear hcontexts.clear hcontexts'.clear
    (Meter.overlooks_isPooling.takeAll hmeter _)

/-! Rendering -/

theorem htmlAlone (h : Alike s s') (n : Node) :
    Agree Alike (s.htmlAlone (s.settingsOf n) n) (s'.htmlAlone (s'.settingsOf n) n) := by
  have hsame : s'.htmlAlone (s'.settingsOf n) n = s'.htmlAlone (s.settingsOf n) n := by
    cases h
    unfold Site.settingsOf
    cases n.scope with
    | none => rfl
    | some scope => simp only [Site.htmlAlone, Option.isSome_some, if_true,
        Context.collect_withCapacities]
  rw [hsame]
  exact .mk _ (h.report _)

theorem renderInto (h : Alike s s') (ns : List Node) (c : Context) :
    ∃ html c' script t t', s.renderInto s.settings ns c = (html, c', script, t) ∧
      s'.renderInto s'.settings ns c = (html, c', script, t') ∧ Alike t t' := by
  have hsame : s'.renderInto s'.settings ns c = s'.renderInto s.settings ns c := by
    cases h
    simp only [Site.renderInto, Context.collect_withCapacities, Hydration.compile_withCapacities]
  rw [hsame]
  exact ⟨_, _, _, _, _, rfl, rfl, h.report _⟩

end Alike

/-- No operation tells apart sites that differ in their pools only. -/
theorem indistinct_alike : Indistinct Scope.SameButCapacities Alike where
  scopes := Scope.indistinct_capacities
  scopeAt := by
    rintro s - ⟨nodes, contexts⟩ scope
    exact ⟨nodes, contexts, rfl⟩
  frame := by
    rintro s - ⟨⟩
    exact ⟨_, _, _, _, rfl⟩
  lang_eq := by
    rintro s - ⟨⟩
    rfl
  styleValueLength_eq := by
    rintro s - ⟨⟩
    rfl
  shouldMinify_eq := by
    rintro s - ⟨⟩
    rfl
  update := by
    rintro s - ⟨n, c, hnodes, hnodes', hcontexts, hcontexts', hmeter⟩ ids nextRun cache flights stores
    exact .mk n c hnodes hnodes' hcontexts hcontexts' hmeter
  report h rs := h.report rs
  reportLog := by
    rintro s s' h sc - ⟨_, _, rfl⟩
    exact h.report _
  advise h message fields := h.advise message fields
  acquireNode h := h.acquireNode
  recycleAll h ns := h.recycleAll ns
  takeContext h := h.takeContext
  giveContext h c := h.giveContext c
  reset h := h.reset
  htmlAlone h n := h.htmlAlone n
  renderInto h ns c := h.renderInto ns c

end Site

end Folio
