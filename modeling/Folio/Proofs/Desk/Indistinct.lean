import Folio.Desk.Run
import Folio.Proofs.Site.IndistinctRequests

/-! Desks at sites that no operation tells apart. What is made and built at one of them and at the
other is the same, and the desks go on to hold the same. -/
namespace Folio.Desk

/-- Desks with the same documents, nodes and contexts, at sites that are related. -/
inductive Over (R : Site → Site → Prop) (k : Desk) : Desk → Prop
  | mk {site : Site} (h : R k.site site) : Over R k { k with site }

namespace Over

variable {Q : Scope → Scope → Prop} {R : Site → Site → Prop} {k k' : Desk}

theorem site (h : Over R k k') : R k.site k'.site := by
  obtain ⟨h⟩ := h
  exact h

theorem document?_eq (h : Over R k k') (doc : String) : k'.document? doc = k.document? doc := by
  cases h
  rfl

theorem node?_eq (h : Over R k k') (node : String) : k'.node? node = k.node? node := by
  cases h
  rfl

theorem contexts_eq (h : Over R k k') : k'.contexts = k.contexts := by
  cases h
  rfl

theorem documents_eq (h : Over R k k') : k'.documents = k.documents := by
  cases h
  rfl

/-- Sites that are related may take the places of the sites. -/
theorem withSite (h : Over R k k') {t t' : Site} (ht : R t t') :
    Over R { k with site := t } { k' with site := t' } := by
  cases h
  exact .mk ht

/-- What a desk holds may be replaced alike. -/
theorem update (h : Over R k k') (documents : List (String × Document))
    (nodes : List (String × Node)) (contexts : List (String × Context)) :
    Over R { k with documents, nodes, contexts } { k' with documents, nodes, contexts } := by
  obtain ⟨h⟩ := h
  exact .mk h

theorem setNode (h : Over R k k') (node : String) (n : Node) :
    Over R (k.setNode node n) (k'.setNode node n) := by
  obtain ⟨h⟩ := h
  exact .mk h

theorem setDocument (h : Over R k k') (doc : String) (d : Document) :
    Over R (k.setDocument doc d) (k'.setDocument doc d) := by
  obtain ⟨h⟩ := h
  exact .mk h

theorem takeNode (h : Over R k k') (node : String) :
    Agree (Over R) (k.takeNode node) (k'.takeNode node) := by
  unfold Desk.takeNode
  rw [h.node?_eq]
  cases k.node? node with
  | none => exact .mk _ h
  | some n =>
    have hrest := h.update k.documents (Entries.erase node k.nodes) k.contexts
    cases h
    exact .mk _ hrest

theorem takeNodes (h : Over R k k') (names : List String) :
    Agree (Over R) (Desk.takeNodes names k) (Desk.takeNodes names k') := by
  induction names generalizing k k' with
  | nil => exact .mk _ h
  | cons name names ih =>
    obtain ⟨taken, t, t', ht, ht', hfirst⟩ := h.takeNode name
    simp only [Desk.takeNodes, ht, ht']
    cases taken with
    | error e => exact .mk _ hfirst
    | ok n =>
      obtain ⟨more, u, u', hu, hu', hrest⟩ := ih hfirst
      simp only [hu, hu']
      cases more with
      | error e => exact .mk _ hrest
      | ok ns => exact .mk _ hrest

/-! Building: one case for each step, children first. -/

theorem placeDocument (h : Over R k k') (hR : Site.Indistinct Q R) (doc : String) (d : Document) :
    Over R (k.placeDocument doc d) (k'.placeDocument doc d) := by
  have hset := h.setDocument doc d
  unfold Desk.placeDocument
  rw [h.document?_eq]
  cases k.document? doc with
  | none => exact hset
  | some old => exact hset.withSite (hR.drop hset.site old)

theorem createIn (h : Over R k k') (hR : Site.Indistinct Q R) (doc tag : String) :
    Agree (Over R) (k.createIn doc tag) (k'.createIn doc tag) := by
  unfold Desk.createIn
  rw [h.document?_eq]
  cases k.document? doc with
  | none => exact .mk _ h
  | some d =>
    obtain ⟨made, t, t', ht, ht', hcreated⟩ := hR.create h.site d tag
    simp only [ht, ht']
    cases made with
    | error fault => exact .mk _ (h.withSite hcreated)
    | ok n => exact .mk _ (h.withSite hcreated)

theorem perform (h : Over R k k') (hR : Site.Indistinct Q R) (n : Node) (c : Call) :
    Agree (Over R) (k.perform n c) (k'.perform n c) := by
  obtain ⟨built, t, t', ht, ht', hbuilt⟩ := hR.build h.site n c
  simp only [Desk.perform, ht, ht']
  cases built with
  | error crash => exact .mk _ (h.withSite hbuilt)
  | ok n => exact .mk _ (h.withSite hbuilt)

theorem listenTo (h : Over R k k') (hR : Site.Indistinct Q R) (n : Node)
    (target event source : String) :
    Agree (Over R) (k.listenTo n target event source) (k'.listenTo n target event source) := by
  unfold Desk.listenTo
  rw [h.node?_eq]
  cases k.node? target with
  | none => exact .mk _ h
  | some m =>
    obtain ⟨named, t, t', ht, ht', hnamed⟩ := hR.ensureId h.site m
    simp only [ht, ht']
    exact ((h.withSite hnamed).setNode target named).perform hR n _

mutual

theorem buildSpec {k k' : Desk} (h : Over R k k') (hR : Site.Indistinct Q R)
    (doc : String) (spec : Spec) :
    Agree (Over R) (Desk.buildSpec doc spec k) (Desk.buildSpec doc spec k') := by
  match spec with
  | .mk tag steps =>
    obtain ⟨made, t, t', ht, ht', hcreated⟩ := h.createIn hR doc tag
    simp only [Desk.buildSpec, ht, ht']
    cases made with
    | error e => exact .mk _ hcreated
    | ok n => exact hcreated.buildSteps hR doc steps n

theorem buildSteps {k k' : Desk} (h : Over R k k') (hR : Site.Indistinct Q R)
    (doc : String) (steps : List Step) (n : Node) :
    Agree (Over R) (Desk.buildSteps doc steps n k) (Desk.buildSteps doc steps n k') := by
  match steps with
  | [] => exact .mk _ h
  | step :: steps =>
    obtain ⟨built, t, t', ht, ht', hfirst⟩ := h.buildStep hR doc step n
    simp only [Desk.buildSteps, ht, ht']
    cases built with
    | error e => exact .mk _ hfirst
    | ok m => exact hfirst.buildSteps hR doc steps m

theorem buildStep {k k' : Desk} (h : Over R k k') (hR : Site.Indistinct Q R)
    (doc : String) (step : Step) (n : Node) :
    Agree (Over R) (Desk.buildStep doc step n k) (Desk.buildStep doc step n k') := by
  match step with
  | .attr name value => exact h.perform hR n (.attr name value)
  | .id value => exact h.perform hR n (.id value)
  | .autoId => exact h.perform hR n .autoId
  | .append sources =>
    obtain ⟨resolved, t, t', ht, ht', hresolved⟩ := h.resolveAll hR doc sources
    simp only [Desk.buildStep, ht, ht']
    cases resolved with
    | error e => exact .mk _ hresolved
    | ok children => exact hresolved.perform hR n (.append children)
  | .css declarations => exact h.perform hR n (.css declarations)
  | .state value => exact h.perform hR n (.state value)
  | .computed source => exact h.perform hR n (.computed source)
  | .bindText key source => exact h.perform hR n (.bindText key source)
  | .listen event source => exact h.perform hR n (.listen event none source)
  | .listenTo target event source => exact h.listenTo hR n target event source
  | .reset => exact h.perform hR n .reset

theorem resolve {k k' : Desk} (h : Over R k k') (hR : Site.Indistinct Q R)
    (doc : String) (source : Source) :
    Agree (Over R) (Desk.resolve doc source k) (Desk.resolve doc source k') := by
  match source with
  | .named node =>
    obtain ⟨taken, t, t', ht, ht', htaken⟩ := h.takeNode node
    simp only [Desk.resolve, ht, ht']
    cases taken with
    | error e => exact .mk _ htaken
    | ok n => exact .mk _ htaken
  | .spec spec =>
    obtain ⟨built, t, t', ht, ht', hbuilt⟩ := h.buildSpec hR doc spec
    simp only [Desk.resolve, ht, ht']
    cases built with
    | error e => exact .mk _ hbuilt
    | ok n => exact .mk _ hbuilt
  | .markup html => exact .mk _ h
  | .text none => exact .mk _ h
  | .text (some content) => exact .mk _ h

theorem resolveAll {k k' : Desk} (h : Over R k k') (hR : Site.Indistinct Q R)
    (doc : String) (sources : List Source) :
    Agree (Over R) (Desk.resolveAll doc sources k) (Desk.resolveAll doc sources k') := by
  match sources with
  | [] => exact .mk _ h
  | source :: sources =>
    obtain ⟨resolved, t, t', ht, ht', hfirst⟩ := h.resolve hR doc source
    simp only [Desk.resolveAll, ht, ht']
    cases resolved with
    | error e => exact .mk _ hfirst
    | ok cs =>
      obtain ⟨more, u, u', hu, hu', hrest⟩ := hfirst.resolveAll hR doc sources
      simp only [hu, hu']
      cases more with
      | error e => exact .mk _ hrest
      | ok ds => exact .mk _ hrest

end

theorem nest (h : Over R k k') (hR : Site.Indistinct Q R) (doc tag : String) (depth : Nat)
    (n : Node) :
    Agree (Over R) (Desk.nest doc tag depth n k) (Desk.nest doc tag depth n k') := by
  induction depth generalizing n k k' with
  | zero => exact .mk _ h
  | succ depth ih =>
    obtain ⟨made, t, t', ht, ht', hcreated⟩ := h.createIn hR doc tag
    simp only [Desk.nest, ht, ht']
    cases made with
    | error e => exact .mk _ hcreated
    | ok outer => exact ih hcreated _

end Over

end Folio.Desk
