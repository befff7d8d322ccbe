import Folio.Proofs.Desk.Indistinct

/-! Runs of operations on a new site, and two of them at sites that no operation tells apart: they
are answered alike, up to what answers show of the sites themselves. -/
namespace Folio.Desk

/-! Operations -/

/-- What is asked of a site and its desk. A builder is given by the commands that it runs. -/
inductive Operation where
  | command (c : Command)
  /-- Requests by key that are made together. -/
  | requests (items : List (String × List Command))
  | warmup (routes : List (String × List Command))

/-- What comes back from an operation. -/
inductive Answer where
  | command (result : Except Trouble Reply)
  | pages (results : List (Except RenderFault String))
  | warmup (reports : List WarmupReport)

/-- The builders of pages by key. -/
def builders (items : List (String × List Command)) : List (String × Builder) :=
  items.map fun item => (item.1, builder item.2)

/-- Performs an operation. -/
def answer (k : Desk) : Operation → Answer × Desk
  | .command c =>
    let (result, k) := k.run c
    (.command result, k)
  | .requests items =>
    let (results, site) := k.site.requestAll (builders items)
    (.pages results, { k with site })
  | .warmup routes =>
    let (reports, site) := k.site.warmup (builders routes)
    (.warmup reports, { k with site })

/-- Performs operations one after another. -/
def answerAll : List Operation → Desk → List Answer × Desk
  | [], k => ([], k)
  | op :: ops, k =>
    let (a, k) := k.answer op
    let (as, k) := answerAll ops k
    (a :: as, k)

/-- A new desk at a new site. -/
def opened (settings : Settings) (sink : Sink) (firstRun : Nat) : Desk :=
  { site := .ofSettings settings sink firstRun }

/-! Hiding what differs -/

/-- The result of a command with something in its reply hidden. -/
def mask (hide : Reply → Reply) (r : Work Reply) : Work Reply := (r.1.map hide, r.2)

/-- An answer with something in the replies of commands hidden. -/
def Answer.mask (hide : Reply → Reply) : Answer → Answer
  | .command result => .command (result.map hide)
  | .pages results => .pages results
  | .warmup reports => .warmup reports

/-- Holds of ways to hide in replies what differs at related sites: the settings and statistics. -/
structure Hides (R : Site → Site → Prop) (hide : Reply → Reply) : Prop where
  settings : ∀ {s s'}, R s s' → hide (.settings s'.settings) = hide (.settings s.settings)
  statistics : ∀ {s s'}, R s s' → hide (.statistics s'.statistics) = hide (.statistics s.statistics)

/-- Everything may be hidden. -/
theorem hides_all {R : Site → Site → Prop} : Hides R fun _ => .done := ⟨fun _ => rfl, fun _ => rfl⟩

namespace Over

variable {Q : Scope → Scope → Prop} {R : Site → Site → Prop} {hide : Reply → Reply}
  {k k' : Desk} {r r' : Work Reply}

theorem mask (hide : Reply → Reply) (h : Agree (Over R) r r') :
    Agree (Over R) (Desk.mask hide r) (Desk.mask hide r') := by
  obtain ⟨a, t, t', rfl, rfl, hafter⟩ := h
  exact .mk _ hafter

theorem onDocument (h : Over R k k') (doc : String) {f f' : Document → Work Reply}
    (hf : ∀ d, Agree (Over R) (f d) (f' d)) :
    Agree (Over R) (k.onDocument doc f) (k'.onDocument doc f') := by
  unfold Desk.onDocument
  rw [h.document?_eq]
  cases k.document? doc with
  | none => exact .mk _ h
  | some d => exact hf d

theorem onNode (h : Over R k k') (node : String) {f f' : Node → Work Reply}
    (hf : ∀ n, Agree (Over R) (f n) (f' n)) :
    Agree (Over R) (k.onNode node f) (k'.onNode node f') := by
  unfold Desk.onNode
  rw [h.node?_eq]
  cases k.node? node with
  | none => exact .mk _ h
  | some n => exact hf n

theorem keepNode (node : String) {r r' : Work Node} (h : Agree (Over R) r r') :
    Agree (Over R) (Desk.keepNode node r) (Desk.keepNode node r') := by
  obtain ⟨made, t, t', rfl, rfl, hafter⟩ := h
  cases made with
  | error e => exact .mk _ hafter
  | ok n => exact .mk _ (hafter.setNode node n)

theorem pushAll (h : Over R k k') (doc : String) (ns : List Node) :
    Agree (Over R) (k.pushAll doc ns) (k'.pushAll doc ns) :=
  h.onDocument doc fun d => .mk _ (h.setDocument doc { d with body := d.body ++ ns })

theorem runStep (h : Over R k k') (hR : Site.Indistinct Q R) (doc node : String) (step : Step) :
    Agree (Over R) (k.runStep doc node step) (k'.runStep doc node step) := by
  obtain ⟨taken, t, t', ht, ht', htaken⟩ := h.takeNode node
  simp only [Desk.runStep, ht, ht']
  cases taken with
  | error e => exact .mk _ htaken
  | ok n => exact keepNode node (htaken.buildStep hR doc step n)

theorem runHtml (h : Over R k k') (hR : Site.Indistinct Q R) (n : Node) (settings : Settings) :
    Agree (Over R) (k.runHtml n settings) (k'.runHtml n settings) := by
  obtain ⟨html, t, t', ht, ht', hafter⟩ := hR.htmlAlone_with h.site settings n
  simp only [Desk.runHtml, ht, ht']
  exact .mk _ (h.withSite hafter)

theorem runHtml_settingsOf (h : Over R k k') (hR : Site.Indistinct Q R) (n : Node) :
    Agree (Over R) (k.runHtml n (k.site.settingsOf n)) (k'.runHtml n (k'.site.settingsOf n)) := by
  obtain ⟨html, t, t', ht, ht', hafter⟩ := hR.htmlAlone h.site n
  simp only [Desk.runHtml, ht, ht']
  exact .mk _ (h.withSite hafter)

theorem runHtmlEach (h : Over R k k') (hR : Site.Indistinct Q R) (ns : List Node) :
    Agree (Over R) (k.runHtmlEach ns) (k'.runHtmlEach ns) := by
  have hgo : ∀ {s s' : Site}, R s s' →
      Agree R (runHtmlEach.go ns s) (runHtmlEach.go ns s') := by
    induction ns with
    | nil => exact fun hs => .mk _ hs
    | cons n ns ih =>
      intro s s' hs
      obtain ⟨html, t, t', ht, ht', hfirst⟩ := hR.htmlAlone hs n
      obtain ⟨htmls, u, u', hu, hu', hrest⟩ := ih hfirst
      simp only [runHtmlEach.go, ht, ht', hu, hu']
      exact .mk _ hrest
  obtain ⟨htmls, t, t', ht, ht', hall⟩ := hgo h.site
  simp only [Desk.runHtmlEach, ht, ht']
  exact .mk _ (h.withSite hall)

theorem runRender (h : Over R k k') (hR : Site.Indistinct Q R) (doc : String) :
    Agree (Over R) (k.runRender doc) (k'.runRender doc) := by
  refine h.onDocument doc fun d => ?_
  obtain ⟨html, rest, t, t', ht, ht', hrendered⟩ := hR.render h.site d
  simp only [ht, ht', hR.store_eq hrendered]
  exact .mk _ ((h.withSite hrendered).setDocument doc rest)

theorem runRestore (h : Over R k k') (hR : Site.Indistinct Q R) (doc text : String) :
    Agree (Over R) (k.runRestore doc text) (k'.runRestore doc text) := by
  unfold Desk.runRestore
  cases Snapshot.read? text with
  | none => exact .mk _ h
  | some snapshot =>
    obtain ⟨restored, t, t', ht, ht', hrestored⟩ := hR.restore h.site snapshot
    simp only [ht, ht']
    cases restored with
    | error fault => exact .mk _ (h.withSite hrestored)
    | ok d => exact .mk _ ((h.withSite hrestored).placeDocument hR doc d)

theorem runContext (h : Over R k k') (hR : Site.Indistinct Q R) (name : String)
    (nodes : List String) (settings : Option Settings) (reset : Bool) :
    Agree (Over R) (k.runContext name nodes settings reset)
      (k'.runContext name nodes settings reset) := by
  have hnodes : nodes.filterMap k'.node? = nodes.filterMap k.node? := by
    rw [funext h.node?_eq]
  have hrendered : ∀ c : Context, ∃ html c' script t t',
      k.site.renderInto (settings.getD k.site.settings) (nodes.filterMap k.node?) c =
        (html, c', script, t) ∧
      k'.site.renderInto (settings.getD k'.site.settings) (nodes.filterMap k.node?) c =
        (html, c', script, t') ∧ R t t' := by
    intro c
    cases settings with
    | none => exact hR.renderInto h.site _ c
    | some settings => exact hR.renderInto_with h.site settings _ c
  unfold Desk.runContext
  simp only [h.contexts_eq, hnodes]
  obtain ⟨html, c, script, t, t', ht, ht', hafter⟩ := hrendered
    (if reset then Reusable.reset ((Entries.get? name k.contexts).getD {})
      else (Entries.get? name k.contexts).getD {})
  simp only [ht, ht']
  have hkept := (h.withSite hafter).update k.documents k.nodes (Entries.put name c k.contexts)
  cases h
  exact .mk _ hkept

/-- A command returns the same at both desks, what is hidden apart. -/
theorem run (h : Over R k k') (hR : Site.Indistinct Q R) (hhide : Hides R hide) (c : Command) :
    Agree (Over R) (Desk.mask hide (k.run c)) (Desk.mask hide (k'.run c)) := by
  cases c with
  | document doc options =>
    obtain ⟨d, t, t', ht, ht', hnew⟩ := hR.newDocument h.site options
    simp only [Desk.run, ht, ht']
    exact .mk _ ((h.withSite hnew).placeDocument hR doc d)
  | create doc node tag => exact mask hide (keepNode node (h.createIn hR doc tag))
  | build doc node spec => exact mask hide (keepNode node (h.buildSpec hR doc spec))
  | add doc spec =>
    obtain ⟨built, t, t', ht, ht', hbuilt⟩ := h.buildSpec hR doc spec
    simp only [Desk.run, ht, ht']
    cases built with
    | error e => exact .mk _ hbuilt
    | ok n =>
      obtain ⟨pushed, u, u', hu, hu', hpushed⟩ := hbuilt.pushAll doc [n]
      simp only [hu, hu']
      cases pushed with
      | error e => exact .mk _ hpushed
      | ok _ => exact .mk _ hpushed
  | step doc node step => exact mask hide (h.runStep hR doc node step)
  | fresh node => exact .mk _ (h.setNode node Reusable.fresh)
  | clone node copy => exact mask hide (h.onNode node fun n => .mk _ (h.setNode copy n))
  | compare node other =>
    refine mask hide (h.onNode node fun n => ?_)
    rw [h.node?_eq]
    exact .mk _ h
  | nest doc node tag depth =>
    obtain ⟨taken, t, t', ht, ht', htaken⟩ := h.takeNode node
    simp only [Desk.run, ht, ht']
    cases taken with
    | error e => exact .mk _ htaken
    | ok n =>
      obtain ⟨nested, u, u', hu, hu', hnested⟩ := htaken.nest hR doc tag depth n
      simp only [hu, hu']
      cases nested with
      | error e => exact .mk _ hnested
      | ok m => exact .mk _ (hnested.setNode node m)
  | dropNode node =>
    obtain ⟨taken, t, t', ht, ht', htaken⟩ := h.takeNode node
    simp only [Desk.run, ht, ht']
    cases taken with
    | error e => exact .mk _ htaken
    | ok n => exact .mk _ htaken
  | tree node => exact mask hide (h.onNode node fun n => .mk _ h)
  | html node => exact mask hide (h.onNode node fun n => h.runHtml_settingsOf hR n)
  | htmlWith node settings => exact mask hide (h.onNode node fun n => h.runHtml hR n settings)
  | push doc nodes =>
    obtain ⟨taken, t, t', ht, ht', htaken⟩ := h.takeNodes nodes
    simp only [Desk.run, ht, ht']
    cases taken with
    | error e => exact .mk _ htaken
    | ok ns => exact mask hide (htaken.pushAll doc ns)
  | body doc => exact mask hide (h.onDocument doc fun d => h.runHtmlEach hR d.body)
  | head doc calls =>
    refine mask hide (h.onDocument doc fun d => ?_)
    exact .mk _ ((h.withSite (hR.report h.site _)).setDocument doc _)
  | states doc =>
    refine mask hide (h.onDocument doc fun d => ?_)
    rw [hR.store_eq h.site]
    exact .mk _ h
  | clear doc =>
    refine mask hide (h.onDocument doc fun d => ?_)
    obtain ⟨rest, t, t', ht, ht', hcleared⟩ := hR.clear h.site d
    simp only [ht, ht']
    exact .mk _ ((h.withSite hcleared).setDocument doc rest)
  | drop doc =>
    simp only [Desk.run, h.document?_eq]
    cases k.document? doc with
    | none => exact .mk _ h
    | some d =>
      have hdropped := (h.withSite (hR.drop h.site d)).update (Entries.erase doc k.documents)
        k.nodes k.contexts
      cases h
      exact .mk _ hdropped
  | render doc => exact mask hide (h.runRender hR doc)
  | snapshot doc =>
    refine mask hide (h.onDocument doc fun d => ?_)
    rw [hR.snapshot_eq h.site]
    exact .mk _ h
  | restore doc text =>
    obtain ⟨restored, t, t', ht, ht', hrestored⟩ := h.runRestore hR doc text
    simp only [Desk.run, ht, ht']
    cases restored with
    | error e => exact .mk _ hrestored
    | ok d =>
      simp only [hR.store_eq hrestored.site]
      exact .mk _ hrestored
  | copy doc target =>
    refine mask hide (h.onDocument doc fun d => ?_)
    rw [hR.snapshot_eq h.site]
    obtain ⟨restored, t, t', ht, ht', hrestored⟩ := h.runRestore hR target (k.site.snapshot d).text
    simp only [ht, ht']
    cases restored with
    | error e => exact .mk _ hrestored
    | ok d =>
      simp only [hR.snapshot_eq hrestored.site]
      exact .mk _ hrestored
  | context name nodes settings reset => exact mask hide (h.runContext hR name nodes settings reset)
  | cache op =>
    obtain ⟨reply, t, t', ht, ht', hdone⟩ := hR.onCache h.site op
    simp only [Desk.run, ht, ht', hR.cache_eq hdone]
    exact .mk _ (h.withSite hdone)
  | settings =>
    simp only [Desk.run, Desk.mask, Except.map, hhide.settings h.site]
    exact .mk _ h
  | statistics =>
    simp only [Desk.run, Desk.mask, Except.map, hhide.statistics h.site]
    exact .mk _ h
  | reset => exact .mk _ (h.withSite (hR.reset h.site))

/-! Builders -/

/-- Results that agree up to what is hidden are both failures, of one trouble, or both not. -/
theorem cases_mask (h : Agree (Over R) (Desk.mask hide r) (Desk.mask hide r')) :
    (∃ e t t', r = (.error e, t) ∧ r' = (.error e, t') ∧ Over R t t') ∨
      ∃ reply reply' t t', r = (.ok reply, t) ∧ r' = (.ok reply', t') ∧ Over R t t' := by
  obtain ⟨hidden, t, t', ht, ht', hafter⟩ := h
  obtain ⟨result, k⟩ := r
  obtain ⟨result', k'⟩ := r'
  obtain ⟨hresult, rfl⟩ := Prod.mk.inj ht
  obtain ⟨hresult', rfl⟩ := Prod.mk.inj ht'
  cases result with
  | error e =>
    cases result' with
    | error e' =>
      obtain rfl : e = e' := Except.error.inj (hresult.trans hresult'.symm)
      exact .inl ⟨e, k, k', rfl, rfl, hafter⟩
    | ok reply' => cases hresult.trans hresult'.symm
  | ok reply =>
    cases result' with
    | error e' => cases hresult.trans hresult'.symm
    | ok reply' => exact .inr ⟨reply, reply', k, k', rfl, rfl, hafter⟩

theorem runAll (h : Over R k k') (hR : Site.Indistinct Q R) (cs : List Command) :
    Agree (Over R) (Desk.runAll cs k) (Desk.runAll cs k') := by
  induction cs generalizing k k' with
  | nil => exact .mk _ h
  | cons c cs ih =>
    unfold Desk.runAll
    obtain ⟨e, t, t', ht, ht', hran⟩ | ⟨reply, reply', t, t', ht, ht', hran⟩ :=
      cases_mask (h.run hR hides_all c)
    · simp only [ht, ht']
      exact .mk _ hran
    · simp only [ht, ht']
      exact ih hran

theorem leave (h : Over R k k') (hR : Site.Indistinct Q R) : R k.leave k'.leave := by
  unfold Desk.leave
  rw [h.documents_eq]
  exact List.foldl_rel h.site fun d _ _ _ hs => hR.drop hs d.2

end Over

variable {Q : Scope → Scope → Prop} {R : Site → Site → Prop} {hide : Reply → Reply}
  {k k' : Desk}

/-- A builder that runs commands does the same at sites that no operation tells apart. -/
theorem blindTo_builder (hR : Site.Indistinct Q R) (cs : List Command) :
    (builder cs).BlindTo R := by
  intro s s' h
  obtain ⟨d, t, t', ht, ht', hnew⟩ := hR.newDocument h {}
  have hopened : Over R { site := t, documents := [(pageName, d)] }
      { site := t', documents := [(pageName, d)] } := .mk hnew
  obtain ⟨trouble, k, k', hk, hk', hran⟩ := hopened.runAll hR cs
  simp only [builder, ht, ht', hk, hk']
  cases trouble with
  | some trouble =>
    cases trouble with
    | crash c => exact .mk _ (hran.leave hR)
    | _ => exact .mk _ (hran.leave hR)
  | none =>
    dsimp only
    rw [hran.document?_eq]
    cases k.document? pageName with
    | none => exact .mk _ (hran.leave hR)
    | some d =>
      have hrest := hran.update (Entries.erase pageName k.documents) k.nodes k.contexts
      cases hran
      exact .mk _ (hrest.leave hR)

theorem blindTo_builders (hR : Site.Indistinct Q R) (items : List (String × List Command)) :
    ∀ item ∈ builders items, item.2.BlindTo R := by
  intro item hitem
  obtain ⟨⟨key, cs⟩, -, rfl⟩ := List.mem_map.1 hitem
  exact blindTo_builder hR cs

/-- One operation is answered alike, what is hidden apart, and leaves desks at related sites. -/
theorem Over.answer (h : Over R k k') (hR : Site.Indistinct Q R) (hhide : Hides R hide)
    (op : Operation) :
    (k'.answer op).1.mask hide = (k.answer op).1.mask hide ∧
      Over R (k.answer op).2 (k'.answer op).2 := by
  cases op with
  | command c =>
    obtain ⟨result, t, t', ht, ht', hran⟩ := h.run hR hhide c
    obtain ⟨hresult, rfl⟩ := Prod.mk.inj ht
    obtain ⟨hresult', rfl⟩ := Prod.mk.inj ht'
    exact ⟨congrArg Answer.command (hresult'.trans hresult.symm), hran⟩
  | requests items =>
    obtain ⟨results, t, t', ht, ht', hafter⟩ := hR.requestAll h.site (blindTo_builders hR items)
    simp only [Desk.answer, ht, ht']
    exact ⟨trivial, h.withSite hafter⟩
  | warmup routes =>
    obtain ⟨reports, t, t', ht, ht', hafter⟩ := hR.warmup h.site (blindTo_builders hR routes)
    simp only [Desk.answer, ht, ht']
    exact ⟨trivial, h.withSite hafter⟩

/-- Two runs of the same operations are answered alike, and leave desks at related sites. -/
theorem Over.answerAll (h : Over R k k') (hR : Site.Indistinct Q R) (hhide : Hides R hide)
    (ops : List Operation) :
    (Desk.answerAll ops k').1.map (Answer.mask hide) =
        (Desk.answerAll ops k).1.map (Answer.mask hide) ∧
      Over R (Desk.answerAll ops k).2 (Desk.answerAll ops k').2 := by
  induction ops generalizing k k' with
  | nil => exact ⟨rfl, h⟩
  | cons op ops ih =>
    obtain ⟨hanswer, hafter⟩ := h.answer hR hhide op
    obtain ⟨hanswers, hall⟩ := ih hafter
    refine ⟨?_, hall⟩
    simp only [Desk.answerAll, List.map_cons, hanswer, hanswers]

end Folio.Desk
