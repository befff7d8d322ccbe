import Folio.Proofs.Site.Alike
import Folio.Proofs.Site.Cleaned
import Folio.Proofs.Site.Sealed

/-! What can be told of a document after its end. Whatever is done next, it comes to the same as at a
site where nothing of the document was ever there. -/
namespace Folio.Site

/-- The work of an author as a program. What it is told decides how it goes on: it sees the settings,
the states and the nodes and documents that it makes. It sees no page, since that may be an old one
from the cache. -/
inductive Work (α : Type) where
  | done (a : α)
  | settings (next : Settings → Work α)
  | storeOf (scope : Nat) (next : States → Work α)
  | setStates (scope : Nat) (states : States) (next : Work α)
  | newDocument (options : CacheOptions) (next : Document → Work α)
  | create (d : Document) (tag : String) (next : Except StructureFault Node → Work α)
  /-- Any operation on a node in its scope. -/
  | within (scope : Option Nat) (f : Scope → Except Crash Node × Scope)
    (next : Except Crash Node → Work α)
  /-- A document comes to its end, and what is left of it may be used again. -/
  | finish (e : Ending) (d : Document) (next : Document → Work α)
  | cache (op : Cache.Operation String) (next : Work α)
  | reset (next : Work α)

namespace Work

variable {α : Type}

/-- A builder call. -/
def build (n : Node) (c : Call) (next : Except Crash Node → Work α) : Work α :=
  .within n.scope (fun sc => n.apply sc c) next

def run : Work α → Site → α × Site
  | .done a, s => (a, s)
  | .settings next, s => (next s.settings).run s
  | .storeOf scope next, s => (next (s.store scope)).run s
  | .setStates scope states next, s => next.run (s.setStore scope states)
  | .newDocument options next, s => (next (s.newDocument options).1).run (s.newDocument options).2
  | .create d tag next, s => (next (s.create d tag).1).run (s.create d tag).2
  | .within scope f next, s => (next (s.within scope f).1).run (s.within scope f).2
  | .finish e d next, s => (next (e.perform s d).1).run (e.perform s d).2
  | .cache op next, s => next.run (s.onCache op).2
  | .reset next, s => next.run s.reset

end Work

/-- Sites that have the same settings, ids and states. Their pools, caches and meters may hold
whatever they like, and so may what computes pages for them. -/
structure Twin (s t : Site) : Prop where
  stocked : s.Stocked ∧ t.Stocked
  settings_eq : t.settings = s.settings
  ids_eq : t.ids = s.ids
  nextRun_eq : t.nextRun = s.nextRun
  stores_eq : t.stores = s.stores

namespace Twin

variable {s t : Site}

theorem report (h : Twin s t) (rs rs' : List Report) : Twin (s.report rs) (t.report rs') :=
  ⟨h.stocked, h.settings_eq, h.ids_eq, h.nextRun_eq, h.stores_eq⟩

theorem setStore (h : Twin s t) (scope : Nat) (states : States) :
    Twin (s.setStore scope states) (t.setStore scope states) :=
  ⟨h.stocked, h.settings_eq, h.ids_eq, h.nextRun_eq, congrArg (·.set scope states) h.stores_eq⟩

theorem setIds (h : Twin s t) (ids : Ids) : Twin { s with ids } { t with ids } :=
  ⟨h.stocked, h.settings_eq, rfl, h.nextRun_eq, h.stores_eq⟩

theorem store_eq (h : Twin s t) (scope : Nat) : t.store scope = s.store scope := by
  rw [store, store, h.stores_eq]

/-- Whatever the caches hold, operations on them change nothing that is compared. -/
theorem onCache (h : Twin s t) (op op' : Cache.Operation String) :
    Twin (s.onCache op).2 (t.onCache op').2 :=
  ⟨h.stocked, h.settings_eq, h.ids_eq, h.nextRun_eq, h.stores_eq⟩

theorem reset (h : Twin s t) : Twin s.reset t.reset :=
  ⟨⟨⟨h.stocked.1.1.clear, h.stocked.1.2.clear⟩, ⟨h.stocked.2.1.clear, h.stocked.2.2.clear⟩⟩,
    h.settings_eq, h.ids_eq, h.nextRun_eq, h.stores_eq⟩

/-- A scope looks the same at either site. -/
theorem scopeAt_eq (h : Twin s t) (scope : Nat) : t.scopeAt scope = s.scopeAt scope := by
  rw [scopeAt, scopeAt, h.settings_eq, h.ids_eq, h.store_eq]

theorem within (h : Twin s t) {α : Type} (scope : Option Nat) (f : Scope → α × Scope) :
    Agree Twin (s.within scope f) (t.within scope f) := by
  cases scope with
  | none =>
    unfold Site.within
    rw [h.nextRun_eq]
    have hrun : Twin { s with nextRun := s.nextRun + 1 } { t with nextRun := s.nextRun + 1 } :=
      ⟨h.stocked, h.settings_eq, h.ids_eq, rfl, h.stores_eq⟩
    exact .mk _ (hrun.report _ _)
  | some scope =>
    rw [within_some, within_some, h.scopeAt_eq]
    have hids := (h.setStore scope .empty).setIds (f (s.scopeAt scope)).2.ids
    exact .mk _ ((hids.setStore scope _).report _ _)

theorem advise (h : Twin s t) (message : String) (fields : List (String × String)) :
    Twin (s.advise message fields) (t.advise message fields) := by
  unfold Site.advise
  rw [h.settings_eq]
  split
  · exact h
  · exact h.report _ _

theorem newDocument (h : Twin s t) (options : CacheOptions) :
    Agree Twin (s.newDocument options) (t.newDocument options) := by
  have hadvised : Twin
      (if options.useCache && options.usableKey?.isNone then
        s.advise "document requests caching without a cache key" else s)
      (if options.useCache && options.usableKey?.isNone then
        t.advise "document requests caching without a cache key" else t) := by
    split
    · exact h.advise _ _
    · exact h
  unfold Site.newDocument
  generalize (if options.useCache && options.usableKey?.isNone then
    s.advise "document requests caching without a cache key" else s) = u at hadvised ⊢
  generalize (if options.useCache && options.usableKey?.isNone then
    t.advise "document requests caching without a cache key" else t) = v at hadvised ⊢
  dsimp only
  rw [hadvised.stores_eq]
  exact .mk _ ⟨hadvised.stocked, hadvised.settings_eq, hadvised.ids_eq, hadvised.nextRun_eq, rfl⟩

theorem create (h : Twin s t) (d : Document) (tag : String) :
    Agree Twin (s.create d tag) (t.create d tag) := by
  unfold Site.create
  cases Tag.normalize tag with
  | error e => exact .mk _ h
  | ok tag =>
    have hs : s.acquireNode.1 = Reusable.fresh := h.stocked.1.1.reached.acquire_eq_fresh
    have ht : t.acquireNode.1 = Reusable.fresh := h.stocked.2.1.reached.acquire_eq_fresh
    have hacquired : Twin s.acquireNode.2 t.acquireNode.2 :=
      ⟨⟨⟨h.stocked.1.1.acquire, h.stocked.1.2⟩, ⟨h.stocked.2.1.acquire, h.stocked.2.2⟩⟩,
        h.settings_eq, h.ids_eq, h.nextRun_eq, h.stores_eq⟩
    dsimp only
    rw [hs, ht]
    exact .mk _ hacquired

/-- Whatever becomes of a document at either site, the same is left of it. -/
theorem of_cleaned (h : Twin s t) {d : Document} {r r' : Document × Site} (hr : Cleaned s d r)
    (hr' : Cleaned t d r') : Agree Twin r r' := by
  refine ⟨r.1, r.2, r'.2, rfl, Prod.ext (hr'.document_eq.trans hr.document_eq.symm) rfl, ?_⟩
  constructor
  · exact ⟨hr.stocked h.stocked.1, hr'.stocked h.stocked.2⟩
  · rw [hr.settings_eq, hr'.settings_eq, h.settings_eq]
  · rw [hr.ids_eq, hr'.ids_eq, h.ids_eq]
  · rw [hr.nextRun_eq, hr'.nextRun_eq, h.nextRun_eq]
  · rw [hr.stores_eq, hr'.stores_eq, h.stores_eq]

/-- Work comes to the same at either site. -/
theorem run (h : Twin s t) {α : Type} (w : Work α) : Agree Twin (w.run s) (w.run t) := by
  have hnext {β : Type} {r r' : β × Site} (hr : Agree Twin r r') {next : β → Work α}
      (ih : ∀ b {s t : Site}, Twin s t → Agree Twin ((next b).run s) ((next b).run t)) :
      Agree Twin ((next r.1).run r.2) ((next r'.1).run r'.2) := by
    obtain ⟨b, u, u', rfl, rfl, hu⟩ := hr
    exact ih b hu
  induction w generalizing s t with
  | done a => exact .mk a h
  | settings next ih =>
    rw [Work.run, Work.run, h.settings_eq]
    exact ih _ h
  | storeOf scope next ih =>
    rw [Work.run, Work.run, h.store_eq]
    exact ih _ h
  | setStates scope states next ih => exact ih (h.setStore scope states)
  | newDocument options next ih => exact hnext (h.newDocument options) ih
  | create d tag next ih => exact hnext (h.create d tag) ih
  | within scope f next ih => exact hnext (h.within scope f) ih
  | finish e d next ih => exact hnext (h.of_cleaned (e.cleaned s d) (e.cleaned t d)) ih
  | cache op next ih => exact ih (h.onCache op op)
  | reset next ih => exact ih h.reset

/-- The page that a document is given without the cache. -/
theorem fst_renderUncached_eq (h : Twin s t) (d : Document) :
    (t.renderUncached d).1 = (s.renderUncached d).1 := by
  have hs := renderPage_eq_wrap h.stocked.1.2.reached d
  have ht := renderPage_eq_wrap h.stocked.2.2.reached d
  rw [parts, h.settings_eq] at ht
  exact ht.trans hs.symm

end Twin

variable {s : Site} {d : Document}

/-- A new site that has only the settings, the ids to come and the states of all scopes but one from
another. -/
def blank (s : Site) (scope : Nat) : Site :=
  { ofSettings s.settings .silent 0 with
    ids := s.ids, nextRun := s.nextRun, stores := s.stores.set scope .empty }

/-- After its end nothing is left of a document that a site could tell. -/
theorem Cleaned.twin_blank {r : Document × Site} (h : Cleaned s d r) (hs : s.Stocked) :
    Twin r.2 (s.blank d.scope) :=
  ⟨⟨h.stocked hs, stocked_ofSettings s.settings .silent 0⟩, h.settings_eq.symm, h.ids_eq.symm,
    h.nextRun_eq.symm, h.stores_eq.symm⟩

theorem render_of_uncached (h : s.cachedPage? d = none) : (s.render d).1 = (s.renderUncached d).1 := by
  cases hkey : d.options.usableKey? with
  | none => rw [render_of_unusable hkey]
  | some key =>
    rw [cachedPage?, hkey, Option.bind_some] at h
    exact (render_of_absent hkey h).1

/-- Whichever way a document comes to its end, all of it is given up: its body, its head and its
states are empty, and each element of the body went back to the pool. From the cache a rendering gets
the page itself; else it leaves its page there, if the document has a usable key. What is done with
the document later, by whatever work, comes to the same as if it had been new, and a page that is
rendered then is the page that would have been rendered there. -/
theorem ending_leaves_nothing (s : Site) (d : Document) :
    (∀ e : Ending,
      let r := e.perform s d
      (r.1.body = [] ∧ r.1.head = {} ∧ r.2.store d.scope = .empty) ∧
      r.2.nodes.statistics.released + r.2.nodes.statistics.discarded =
        s.nodes.statistics.released + s.nodes.statistics.discarded +
          Child.countAll (d.body.map Node.toChild)) ∧
    (∀ page, s.Stocked → s.cachedPage? d = some page →
      (s.render d).1 = page ∧ (s.render d).2.2.contexts = s.contexts ∧
      ∃ rs, (s.render d).2.2.meter = s.meter.takeAll rs ∧
        Report.total Metric.renderCount rs = 0) ∧
    (∀ key, d.options.usableKey? = some key → s.cache.peek key = none → 0 < s.cache.capacity →
      (s.render d).2.2.cache.peek key = some (s.render d).1) ∧
    (d.options.usableKey? = none →
      (s.render d).2.2.cache = s.cache ∧ (s.render d).2.2.flights = s.flights) ∧
    (s.Stocked → ∀ (e : Ending) (later : Document → Work Document),
      let r := e.perform s d
      let here := (later r.1).run r.2
      let there := (later { scope := d.scope, options := d.options }).run (s.blank d.scope)
      here.1 = there.1 ∧
      (here.2.cachedPage? here.1 = none →
        (here.2.render here.1).1 = (there.2.renderUncached there.1).1)) := by
  refine ⟨fun e => ?_, fun page hs => render_of_cached hs, fun key hkey hp =>
    (render_of_absent hkey hp).2, fun hkey => ?_, fun hs e later => ?_⟩
  · have hcleaned := e.cleaned s d
    refine ⟨⟨?_, ?_, hcleaned.store_eq⟩, hcleaned.given_eq⟩
    · rw [hcleaned.document_eq]
    · rw [hcleaned.document_eq]
  · rw [render_of_unusable hkey]
    exact ⟨(s.quiet_renderUncached d).cache, (s.quiet_renderUncached d).flights⟩
  · have hcleaned := e.cleaned s d
    obtain ⟨d', t, t', hhere, hthere, htwin⟩ :=
      (hcleaned.twin_blank hs).run (later { scope := d.scope, options := d.options })
    dsimp only
    rw [hcleaned.document_eq, hhere, hthere]
    refine ⟨rfl, fun huncached => ?_⟩
    rw [render_of_uncached huncached, htwin.fst_renderUncached_eq]

/-- A tree with an element below a void one is rendered and stored. It is then rendered from the
cache, and after that another tree is built in its place and the cache is cleared. -/
theorem ending_leaves_nothing_below_void :
    let s : Site := .ofSettings {} .silent 0
    let tree : Node :=
      { tag := "div", children := [.element { tag := "br" } [.element { tag := "b" } []]] }
    let d : Document := { scope := 0, body := [tree], options := .cached "k" }
    let t := (s.render d).2.2
    let later (d : Document) : Work Document := .create d "p" fun made =>
      .build (made.toOption.getD {}) (.append [.text "new"]) fun built =>
        .cache .clear (.done { d with body := built.toOption.toList })
    s.Stocked ∧ d.options.usableKey? = some "k" ∧ s.cache.peek "k" = none ∧ 0 < s.cache.capacity ∧
      t.cache.peek "k" = some (s.render d).1 ∧
      t.nodes.statistics.released + t.nodes.statistics.discarded = 3 ∧
      t.cachedPage? d = some (s.render d).1 ∧ (t.render d).1 = (s.render d).1 ∧
      (let r := Ending.render.perform t d
      let here := (later r.1).run r.2
      let there := (later { scope := 0, options := .cached "k" }).run (t.blank 0)
      here.2.cachedPage? here.1 = none ∧
        (here.2.render here.1).1 = (there.2.renderUncached there.1).1) := by
  intro s tree d t later
  have hs : s.Stocked := stocked_ofSettings _ _ _
  have hkey : d.options.usableKey? = some "k" := rfl
  obtain ⟨hends, -, hmiss, -, -⟩ := ending_leaves_nothing s d
  have hstored : t.cache.peek "k" = some (s.render d).1 := hmiss "k" hkey rfl (by decide)
  have hcached : t.cachedPage? d = some (s.render d).1 := by
    rw [cachedPage?, hkey, Option.bind_some, hstored]
  have ht : t.Stocked := (s.cleaned_render d).stocked hs
  obtain ⟨-, hhit, -, -, hlater⟩ := ending_leaves_nothing t d
  have hlast := hlater ht .render later
  have hleft : (Ending.render.perform t d).1 = { scope := 0, options := .cached "k" } :=
    (Ending.render.cleaned t d).document_eq
  dsimp only at hlast ⊢
  rw [hleft] at hlast ⊢
  exact ⟨hs, hkey, rfl, by decide, hstored, (hends .render).2, hcached, (hhit _ ht hcached).1, rfl,
    hlast.2 rfl⟩

end Folio.Site
