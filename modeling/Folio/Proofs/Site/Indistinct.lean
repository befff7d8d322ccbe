import Folio.Proofs.Page.Indistinct
import Folio.Site.Restore

/-! Two runs at sites that differ in what no operation acts on. Of a relation between sites it is asked
that the few things that operations are made of preserve it and come to the same at both sites; then
whatever is done with documents, nodes and snapshots does too. -/
namespace Folio.Site

/-- The scope in which an operation on a node of a document runs. -/
def scopeAt (s : Site) (scope : Nat) : Scope :=
  { settings := s.settings, ids := s.ids, states := s.store scope }

/-- The result of an operation in a scope, with what it changed taken over. -/
def takeOver {α : Type} (s : Site) (scope : Nat) (r : α × Scope) : α × Site :=
  (r.1, ({ s.setStore scope .empty with ids := r.2.ids }.setStore scope r.2.states).report
    (r.2.log.reverse.map .event))

theorem within_some {α : Type} (s : Site) (scope : Nat) (f : Scope → α × Scope) :
    s.within (some scope) f = s.takeOver scope (f (s.scopeAt scope)) := rfl

/-- Holds of a relation between sites that no operation tells apart, with a relation between the scopes
that they make. -/
structure Indistinct (Q : Scope → Scope → Prop) (R : Site → Site → Prop) : Prop where
  scopes : Scope.Indistinct Q
  scopeAt : ∀ {s s'}, R s s' → ∀ scope, Q (s.scopeAt scope) (s'.scopeAt scope)
  /-- Related sites differ in their settings, pools and meters at most. -/
  frame : ∀ {s s'}, R s s' → ∃ settings nodes contexts meter,
    s' = { s with settings, nodes, contexts, meter }
  lang_eq : ∀ {s s'}, R s s' → s'.settings.lang = s.settings.lang
  styleValueLength_eq : ∀ {s s'}, R s s' →
    s'.settings.styleValueLength = s.settings.styleValueLength
  shouldMinify_eq : ∀ {s s'}, R s s' → s'.settings.shouldMinify = s.settings.shouldMinify
  /-- What they share may be replaced alike. -/
  update : ∀ {s s'}, R s s' → ∀ ids nextRun cache flights stores,
    R { s with ids, nextRun, cache, flights, stores } { s' with ids, nextRun, cache, flights, stores }
  report : ∀ {s s'}, R s s' → ∀ rs, R (s.report rs) (s'.report rs)
  /-- What is logged in the scopes. -/
  reportLog : ∀ {s s'}, R s s' → ∀ {sc sc'}, Q sc sc' →
    R (s.report (sc.log.reverse.map .event)) (s'.report (sc'.log.reverse.map .event))
  advise : ∀ {s s'}, R s s' → ∀ message fields, R (s.advise message fields) (s'.advise message fields)
  acquireNode : ∀ {s s'}, R s s' → Agree R s.acquireNode s'.acquireNode
  recycleAll : ∀ {s s'}, R s s' → ∀ ns, R (s.recycleAll ns) (s'.recycleAll ns)
  takeContext : ∀ {s s'}, R s s' → ∃ c contexts rs contexts' rs',
    s.contexts.acquire = (c, contexts, rs) ∧ s'.contexts.acquire = (c, contexts', rs') ∧
      R ({ s with contexts }.report rs) ({ s' with contexts := contexts' }.report rs')
  giveContext : ∀ {s s'}, R s s' → ∀ c,
    R ({ s with contexts := (s.contexts.release c).2.1 }.report (s.contexts.release c).2.2)
      ({ s' with contexts := (s'.contexts.release c).2.1 }.report (s'.contexts.release c).2.2)
  reset : ∀ {s s'}, R s s' → R s.reset s'.reset
  htmlAlone : ∀ {s s'}, R s s' → ∀ n,
    Agree R (s.htmlAlone (s.settingsOf n) n) (s'.htmlAlone (s'.settingsOf n) n)
  renderInto : ∀ {s s'}, R s s' → ∀ ns c, ∃ html c' script t t',
    s.renderInto s.settings ns c = (html, c', script, t) ∧
      s'.renderInto s'.settings ns c = (html, c', script, t') ∧ R t t'

namespace Indistinct

variable {Q : Scope → Scope → Prop} {R : Site → Site → Prop} {s s' : Site}

/-! What related sites share, and that it may be replaced -/

theorem nextRun_eq (hR : Indistinct Q R) (h : R s s') : s'.nextRun = s.nextRun := by
  obtain ⟨settings, nodes, contexts, meter, rfl⟩ := hR.frame h
  rfl

theorem cache_eq (hR : Indistinct Q R) (h : R s s') : s'.cache = s.cache := by
  obtain ⟨settings, nodes, contexts, meter, rfl⟩ := hR.frame h
  rfl

theorem flights_eq (hR : Indistinct Q R) (h : R s s') : s'.flights = s.flights := by
  obtain ⟨settings, nodes, contexts, meter, rfl⟩ := hR.frame h
  rfl

theorem stores_eq (hR : Indistinct Q R) (h : R s s') : s'.stores = s.stores := by
  obtain ⟨settings, nodes, contexts, meter, rfl⟩ := hR.frame h
  rfl

theorem setIds (hR : Indistinct Q R) (h : R s s') (ids : Ids) :
    R { s with ids } { s' with ids } := by
  have hupdated := hR.update h ids s.nextRun s.cache s.flights s.stores
  obtain ⟨settings, nodes, contexts, meter, rfl⟩ := hR.frame h
  exact hupdated

theorem setNextRun (hR : Indistinct Q R) (h : R s s') (nextRun : Nat) :
    R { s with nextRun } { s' with nextRun } := by
  have hupdated := hR.update h s.ids nextRun s.cache s.flights s.stores
  obtain ⟨settings, nodes, contexts, meter, rfl⟩ := hR.frame h
  exact hupdated

theorem setCache (hR : Indistinct Q R) (h : R s s') (cache : Cache String) :
    R { s with cache } { s' with cache } := by
  have hupdated := hR.update h s.ids s.nextRun cache s.flights s.stores
  obtain ⟨settings, nodes, contexts, meter, rfl⟩ := hR.frame h
  exact hupdated

theorem setFlights (hR : Indistinct Q R) (h : R s s') (flights : Flight.Registry) :
    R { s with flights } { s' with flights } := by
  have hupdated := hR.update h s.ids s.nextRun s.cache flights s.stores
  obtain ⟨settings, nodes, contexts, meter, rfl⟩ := hR.frame h
  exact hupdated

theorem setStores (hR : Indistinct Q R) (h : R s s') (stores : List States) :
    R { s with stores } { s' with stores } := by
  have hupdated := hR.update h s.ids s.nextRun s.cache s.flights stores
  obtain ⟨settings, nodes, contexts, meter, rfl⟩ := hR.frame h
  exact hupdated

theorem store_eq (hR : Indistinct Q R) (h : R s s') (scope : Nat) :
    s'.store scope = s.store scope := by
  rw [store, store, hR.stores_eq h]

theorem setStore (hR : Indistinct Q R) (h : R s s') (scope : Nat) (states : States) :
    R (s.setStore scope states) (s'.setStore scope states) := by
  rw [Site.setStore, Site.setStore, hR.stores_eq h]
  exact hR.setStores h _

theorem snapshot_eq (hR : Indistinct Q R) (h : R s s') (d : Document) :
    s'.snapshot d = s.snapshot d := by
  rw [snapshot, snapshot, hR.store_eq h]

theorem takeOver (hR : Indistinct Q R) (h : R s s') (scope : Nat) {α : Type} {r r' : α × Scope}
    (hr : Agree Q r r') : Agree R (s.takeOver scope r) (s'.takeOver scope r') := by
  obtain ⟨a, sc, sc', rfl, rfl, hsc⟩ := hr
  unfold Site.takeOver
  rw [hR.scopes.ids_eq hsc, hR.scopes.states_eq hsc]
  have hids := hR.setIds (hR.setStore h scope .empty) sc.ids
  exact .mk a (hR.reportLog (hR.setStore hids scope sc.states) hsc)

/-- An operation in a scope that does the same in scopes that are related. -/
theorem within (hR : Indistinct Q R) (h : R s s') (scope : Option Nat) {α : Type}
    {f : Scope → α × Scope} (hf : ∀ {sc sc'}, Q sc sc' → Agree Q (f sc) (f sc')) :
    Agree R (s.within scope f) (s'.within scope f) := by
  cases scope with
  | none =>
    unfold Site.within
    rw [hR.nextRun_eq h]
    exact .mk _ (hR.report (hR.setNextRun h _) _)
  | some scope =>
    rw [within_some, within_some]
    exact hR.takeOver h scope (hf (hR.scopeAt h scope))

theorem onCache (hR : Indistinct Q R) (h : R s s') (op : Cache.Operation String) :
    Agree R (s.onCache op) (s'.onCache op) := by
  unfold Site.onCache
  rw [hR.cache_eq h]
  exact .mk _ (hR.report (hR.setCache h _) _)

/-- A lookup in the cache finds the same. -/
theorem lookup (hR : Indistinct Q R) (h : R s s') (key : String) :
    ∃ found t t', s.onCache (.get key) = (.value found, t) ∧
      s'.onCache (.get key) = (.value found, t') ∧ R t t' := by
  obtain ⟨reply, t, t', ht, ht', hgot⟩ := hR.onCache h (.get key)
  obtain rfl : .value (s.cache.get key).1 = reply := congrArg Prod.fst ht
  exact ⟨_, t, t', ht, ht', hgot⟩

/-! Documents -/

theorem newDocument (hR : Indistinct Q R) (h : R s s') (options : CacheOptions) :
    Agree R (s.newDocument options) (s'.newDocument options) := by
  have hadvised : R
      (if options.useCache && options.usableKey?.isNone then
        s.advise "document requests caching without a cache key" else s)
      (if options.useCache && options.usableKey?.isNone then
        s'.advise "document requests caching without a cache key" else s') := by
    split
    · exact hR.advise h _ _
    · exact h
  unfold Site.newDocument
  dsimp only
  rw [hR.stores_eq hadvised]
  exact .mk _ (hR.setStores hadvised _)

theorem create (hR : Indistinct Q R) (h : R s s') (d : Document) (tag : String) :
    Agree R (s.create d tag) (s'.create d tag) := by
  unfold Site.create
  cases Tag.normalize tag with
  | error e => exact .mk _ h
  | ok tag =>
    obtain ⟨n, t, t', ht, ht', hafter⟩ := hR.acquireNode h
    simp only [ht, ht']
    exact .mk _ hafter

theorem build (hR : Indistinct Q R) (h : R s s') (n : Node) (call : Call) :
    Agree R (s.build n call) (s'.build n call) :=
  hR.within h n.scope fun hsc => hR.scopes.apply n hsc call

theorem ensureId (hR : Indistinct Q R) (h : R s s') (n : Node) :
    Agree R (s.ensureId n) (s'.ensureId n) :=
  hR.within h n.scope fun hsc => hR.scopes.ensureId n hsc

theorem clear (hR : Indistinct Q R) (h : R s s') (d : Document) :
    Agree R (s.clear d) (s'.clear d) :=
  .mk _ (hR.setStore (hR.recycleAll h d.body) d.scope .empty)

theorem drop (hR : Indistinct Q R) (h : R s s') (d : Document) : R (s.drop d) (s'.drop d) := by
  obtain ⟨d', t, t', ht, ht', hafter⟩ := hR.clear h d
  unfold Site.drop
  rwa [ht, ht']

/-- Rendering a node on its own under settings that are given. -/
theorem htmlAlone_with (hR : Indistinct Q R) (h : R s s') (settings : Settings) (n : Node) :
    Agree R (s.htmlAlone settings n) (s'.htmlAlone settings n) :=
  .mk _ (hR.report h _)

/-- Rendering nodes into a context under settings that are given. -/
theorem renderInto_with (hR : Indistinct Q R) (h : R s s') (settings : Settings) (ns : List Node)
    (c : Context) :
    ∃ html c' script t t', s.renderInto settings ns c = (html, c', script, t) ∧
      s'.renderInto settings ns c = (html, c', script, t') ∧ R t t' :=
  ⟨_, _, _, _, _, rfl, rfl, hR.report h _⟩

theorem renderPage (hR : Indistinct Q R) (h : R s s') (head : Head) (body : List Node) :
    Agree R (s.renderPage head body) (s'.renderPage head body) := by
  obtain ⟨c, contexts, rs, contexts', rs', hs, hs', htaken⟩ := hR.takeContext h
  obtain ⟨html, c', script, t, t', ht, ht', hrendered⟩ := hR.renderInto htaken body c
  have hgiven := hR.giveContext hrendered c'
  simp only [Site.renderPage, hs, hs', ht, ht', hR.lang_eq hrendered, hR.shouldMinify_eq hgiven]
  exact .mk _ (hR.report hgiven _)

theorem renderUncached (hR : Indistinct Q R) (h : R s s') (d : Document) :
    ∃ page rest t t', s.renderUncached d = (page, rest, t) ∧
      s'.renderUncached d = (page, rest, t') ∧ R t t' := by
  obtain ⟨page, t, t', ht, ht', hrendered⟩ := hR.renderPage h d.head d.body
  obtain ⟨rest, u, u', hu, hu', hcleared⟩ := hR.clear hrendered d
  refine ⟨page, rest, u, u', ?_, ?_, hcleared⟩
  · simp only [Site.renderUncached, ht, hu]
  · simp only [Site.renderUncached, ht', hu']

theorem render (hR : Indistinct Q R) (h : R s s') (d : Document) :
    ∃ page rest t t', s.render d = (page, rest, t) ∧ s'.render d = (page, rest, t') ∧ R t t' := by
  unfold Site.render
  cases d.options.usableKey? with
  | none => exact hR.renderUncached h d
  | some key =>
    obtain ⟨found, t, t', ht, ht', hgot⟩ := hR.lookup h key
    simp only [ht, ht']
    cases found with
    | none =>
      obtain ⟨page, rest, u, u', hu, hu', hrendered⟩ := hR.renderUncached hgot d
      obtain ⟨_, v, v', hv, hv', hkept⟩ := hR.onCache hrendered (.set key page)
      exact ⟨page, rest, v, v', by simp only [hu, hv], by simp only [hu', hv'], hkept⟩
    | some page =>
      obtain ⟨rest, u, u', hu, hu', hcleared⟩ := hR.clear hgot d
      exact ⟨page, rest, u, u', by simp only [hu], by simp only [hu'], hcleared⟩

/-! Import -/

theorem importAttributes (hR : Indistinct Q R) (h : R s s') (n : Node)
    (attributes : List (String × String)) :
    Agree R (Site.importAttributes n attributes s) (Site.importAttributes n attributes s') := by
  induction attributes generalizing n s s' with
  | nil => exact .mk n h
  | cons a rest ih =>
    obtain ⟨name, value⟩ := a
    obtain ⟨m, t, t', ht, ht', hset⟩ :=
      hR.within h n.scope fun hsc => hR.scopes.attr n hsc name value
    simp only [Site.importAttributes, ht, ht']
    exact ih hset m

theorem importStyle (hR : Indistinct Q R) (h : R s s') (n : Node) (tag : String)
    (fragment : Option String) :
    Agree R (s.importStyle n tag fragment) (s'.importStyle n tag fragment) := by
  cases fragment with
  | none => exact .mk n h
  | some fragment =>
    simp only [Site.importStyle, hR.styleValueLength_eq h]
    split
    · exact .mk _ (hR.report h _)
    · exact .mk _ h

theorem importState (hR : Indistinct Q R) (h : R s s') (n : Node) (state : Option Json) :
    Agree R (s.importState n state) (s'.importState n state) := by
  cases state with
  | none => exact .mk n h
  | some value => exact hR.within h n.scope fun hsc => hR.scopes.capture n hsc value

mutual

theorem importRecord {s s' : Site} (hR : Indistinct Q R) (h : R s s') (d : Document) (r : Record) :
    Agree R (Site.importRecord d r s) (Site.importRecord d r s') := by
  match r with
  | .text content | .markup content => exact .mk _ h
  | .element e children =>
    obtain ⟨made, t, t', ht, ht', hcreated⟩ := hR.create h d e.tag
    simp only [Site.importRecord, ht, ht']
    cases made with
    | error fault => exact .mk _ hcreated
    | ok n =>
      obtain ⟨m, u, u', hu, hu', hset⟩ := hR.importAttributes hcreated n e.attributes.entries
      obtain ⟨read, v, v', hv, hv', hread⟩ := importRecords hR hset d children
      simp only [hu, hu', hv, hv']
      cases read with
      | error fault => exact .mk _ hread
      | ok cs =>
        obtain ⟨m₁, w, w', hw, hw', hstyled⟩ := hR.importStyle hread (m.append cs) e.tag e.style
        obtain ⟨m₂, x, x', hx, hx', hcaptured⟩ := hR.importState hstyled m₁ e.state
        simp only [hw, hw', hx, hx']
        exact .mk _ hcaptured

theorem importRecords {s s' : Site} (hR : Indistinct Q R) (h : R s s') (d : Document)
    (rs : List Record) :
    Agree R (Site.importRecords d rs s) (Site.importRecords d rs s') := by
  match rs with
  | [] => exact .mk _ h
  | r :: rs =>
    obtain ⟨read, t, t', ht, ht', hfirst⟩ := importRecord hR h d r
    simp only [Site.importRecords, ht, ht']
    cases read with
    | error fault => exact .mk _ hfirst
    | ok c =>
      obtain ⟨more, u, u', hu, hu', hrest⟩ := importRecords hR hfirst d rs
      simp only [hu, hu']
      cases more with
      | error fault => exact .mk _ hrest
      | ok cs => exact .mk _ hrest

end

theorem importBody (hR : Indistinct Q R) (h : R s s') (d : Document) (done : List Node)
    (rs : List Record) :
    ∃ fault body t t', Site.importBody d done rs s = (fault, body, t) ∧
      Site.importBody d done rs s' = (fault, body, t') ∧ R t t' := by
  induction rs generalizing done s s' with
  | nil => exact ⟨none, done.reverse, s, s', rfl, rfl, h⟩
  | cons r rs ih =>
    obtain ⟨read, t, t', ht, ht', hfirst⟩ := hR.importRecord h d r
    simp only [Site.importBody, ht, ht']
    cases read with
    | error fault => exact ⟨some fault, done.reverse, t, t', rfl, rfl, hfirst⟩
    | ok c =>
      cases c with
      | element e children => exact ih hfirst _
      | text content | markup content => exact ih (hR.report hfirst _) done

theorem restore (hR : Indistinct Q R) (h : R s s') (snapshot : Snapshot) :
    Agree R (s.restore snapshot) (s'.restore snapshot) := by
  obtain ⟨d, t, t', ht, ht', hnew⟩ := hR.newDocument h {}
  obtain ⟨fault, body, u, u', hu, hu', hread⟩ :=
    hR.importBody (hR.setStore hnew d.scope (.ofOrdered snapshot.states))
      { d with head := snapshot.head } [] snapshot.body
  simp only [Site.restore, ht, ht', hu, hu']
  cases fault with
  | none => exact .mk _ hread
  | some fault => exact .mk _ (hR.drop hread _)

end Indistinct

end Folio.Site
