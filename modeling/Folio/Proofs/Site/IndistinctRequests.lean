import Folio.Proofs.Site.Indistinct
import Folio.Site.Request

/-! Requests at sites that no operation tells apart come to the same, if what their builders do
does. -/
namespace Folio

/-- Holds of a builder that does the same at sites that are related. -/
def Builder.BlindTo (R : Site → Site → Prop) (b : Builder) : Prop :=
  ∀ ⦃s s' : Site⦄, R s s' → Agree R (b s) (b s')

namespace Site.Indistinct

variable {Q : Scope → Scope → Prop} {R : Site → Site → Prop} {s s' : Site}

theorem beginLoad (hR : Indistinct Q R) (h : R s s') (key : String) (builder : Builder) :
    ∃ load pending t t', s.beginLoad key builder = (load, pending, t) ∧
      s'.beginLoad key builder = (load, pending, t') ∧ R t t' ∧
      ∀ p ∈ pending, p.builder = builder := by
  unfold Site.beginLoad
  split
  · exact ⟨_, _, s, s', rfl, rfl, h, List.forall_mem_nil _⟩
  · obtain ⟨found, t, t', ht, ht', hgot⟩ := hR.lookup h key
    simp only [ht, ht']
    cases found with
    | some page => exact ⟨_, _, t, t', rfl, rfl, hgot, List.forall_mem_nil _⟩
    | none =>
      have hsame : Flight.enter key t'.cache t'.flights = Flight.enter key t.cache t.flights := by
        rw [hR.cache_eq hgot, hR.flights_eq hgot]
      dsimp only
      rw [hsame]
      obtain ⟨entry, flights, rs⟩ := Flight.enter key t.cache t.flights
      have hentered := hR.report (hR.setFlights hgot flights) rs
      cases entry with
      | answered page => exact ⟨_, _, _, _, rfl, rfl, hentered, List.forall_mem_nil _⟩
      | joined n => exact ⟨_, _, _, _, rfl, rfl, hentered, List.forall_mem_nil _⟩
      | started n => exact ⟨_, _, _, _, rfl, rfl, hentered, List.forall_mem_singleton.2 rfl⟩

theorem compute (hR : Indistinct Q R) (h : R s s') (key : String) {builder : Builder}
    (hb : builder.BlindTo R) :
    Agree R (s.compute key builder) (s'.compute key builder) := by
  obtain ⟨built, t, t', ht, ht', hbuilt⟩ := hb h
  simp only [Site.compute, ht, ht']
  cases built with
  | document d =>
    obtain ⟨page, rest, u, u', hu, hu', hrendered⟩ := hR.renderUncached hbuilt d
    simp only [hu, hu']
    exact .mk _ (hR.drop hrendered rest)
  | failure message => exact .mk _ (hR.report hbuilt _)
  | crash message => exact .mk _ hbuilt

theorem finish (hR : Indistinct Q R) (h : R s s') {p : Pending} (hp : p.builder.BlindTo R) :
    Agree R (s.finish p) (s'.finish p) := by
  obtain ⟨outcome, t, t', ht, ht', hcomputed⟩ := hR.compute h p.key hp
  simp only [Site.finish, ht, ht', hR.cache_eq hcomputed, hR.flights_eq hcomputed]
  obtain ⟨cache, flights, rs⟩ := Flight.complete p.key outcome t.cache t.flights
  have hcompleted := hR.setFlights (hR.setCache hcomputed cache) flights
  exact .mk _ (hR.report hcompleted rs)

theorem finishAll (hR : Indistinct Q R) (h : R s s') {ps : List Pending}
    (hps : ∀ p ∈ ps, p.builder.BlindTo R) :
    Agree R (Site.finishAll ps s) (Site.finishAll ps s') := by
  induction ps generalizing s s' with
  | nil => exact .mk _ h
  | cons p ps ih =>
    rw [List.forall_mem_cons] at hps
    obtain ⟨result, t, t', ht, ht', hfinished⟩ := hR.finish h hps.1
    obtain ⟨results, u, u', hu, hu', hall⟩ := ih hfinished hps.2
    simp only [Site.finishAll, ht, ht', hu, hu']
    exact .mk _ hall

theorem beginAll (hR : Indistinct Q R) (h : R s s') (onLoad : String → Load → List Report)
    {items : List (String × Builder)} (hitems : ∀ item ∈ items, item.2.BlindTo R) :
    ∃ loads pending t t', Site.beginAll onLoad items s = (loads, pending, t) ∧
      Site.beginAll onLoad items s' = (loads, pending, t') ∧ R t t' ∧
      ∀ p ∈ pending, p.builder.BlindTo R := by
  induction items generalizing s s' with
  | nil => exact ⟨[], [], s, s', rfl, rfl, h, List.forall_mem_nil _⟩
  | cons item items ih =>
    obtain ⟨key, builder⟩ := item
    rw [List.forall_mem_cons] at hitems
    obtain ⟨load, pending, t, t', ht, ht', hbegun, hpending⟩ := hR.beginLoad h key builder
    obtain ⟨loads, more, u, u', hu, hu', hrest, hmore⟩ :=
      ih (hR.report hbegun (onLoad key load)) hitems.2
    refine ⟨load :: loads, pending ++ more, u, u', ?_, ?_, hrest, ?_⟩
    · simp only [Site.beginAll, ht, hu]
    · simp only [Site.beginAll, ht', hu']
    · refine List.forall_mem_append.2 ⟨fun p hp => ?_, hmore⟩
      rw [hpending p hp]
      exact hitems.1

theorem requestAll (hR : Indistinct Q R) (h : R s s') {items : List (String × Builder)}
    (hitems : ∀ item ∈ items, item.2.BlindTo R) :
    Agree R (s.requestAll items) (s'.requestAll items) := by
  obtain ⟨loads, pending, t, t', ht, ht', hbegun, hpending⟩ := hR.beginAll h (fun _ _ => []) hitems
  obtain ⟨results, u, u', hu, hu', hfinished⟩ := hR.finishAll hbegun hpending
  simp only [Site.requestAll, ht, ht', hu, hu']
  exact .mk _ hfinished

theorem finishTurns (hR : Indistinct Q R) (h : R s s') (routes : List (String × Load))
    {pending : List Pending} (hpending : ∀ p ∈ pending, p.builder.BlindTo R) :
    Agree R (Site.finishTurns routes pending s) (Site.finishTurns routes pending s') := by
  induction pending using turn_induction generalizing s s' with
  | nil =>
    rw [finishTurns_nil, finishTurns_nil]
    exact .mk _ h
  | turn pending hsome ih =>
    rw [Site.finishTurns, Site.finishTurns, if_neg hsome, if_neg hsome]
    obtain ⟨results, t, t', ht, ht', hturn⟩ := hR.finishAll h fun p hp =>
      hpending p (List.mem_of_mem_take (i := turnLength) hp)
    obtain ⟨more, u, u', hu, hu', hrest⟩ := ih
      (hR.report hturn (lateWarnings routes results))
      (fun p hp => hpending p (List.mem_of_mem_drop hp))
    simp only [ht, ht', hu, hu']
    exact .mk _ hrest

theorem warmup (hR : Indistinct Q R) (h : R s s') {routes : List (String × Builder)}
    (hroutes : ∀ route ∈ routes, route.2.BlindTo R) :
    Agree R (s.warmup routes) (s'.warmup routes) := by
  obtain ⟨loads, pending, t, t', ht, ht', hbegun, hpending⟩ := hR.beginAll h warnRefused hroutes
  obtain ⟨results, u, u', hu, hu', hfinished⟩ :=
    hR.finishTurns hbegun ((routes.map (·.1)).zip loads) hpending
  simp only [Site.warmup, ht, ht', hu, hu']
  exact .mk _ (hR.report hfinished _)

end Site.Indistinct

end Folio
