import Folio.Proofs.Pool.Books
import Folio.Proofs.Site.Serving

/-! The end of a document: it is rendered, cleared or dropped. Whichever way that goes, all that it
held is given up and the rest of the site stays, but for what a rendering leaves in the cache. -/
namespace Folio.Site

/-- The ways in which a document comes to its end. -/
inductive Ending where
  | render
  | clear
  | drop

/-- What is left of a document after its end, and the site. -/
def Ending.perform (s : Site) (d : Document) : Ending → Document × Site
  | .render => (s.render d).2
  | .clear => s.clear d
  | .drop => ((s.clear d).1, s.drop d)

/-- The page that a document would be given from the cache. -/
def cachedPage? (s : Site) (d : Document) : Option String := d.options.usableKey?.bind s.cache.peek

/-- The pools of a site are as their own operations leave them. -/
def Stocked (s : Site) : Prop :=
  Pool.Kept Pool.nodeNames s.nodes ∧ Pool.Kept Pool.contextNames s.contexts

/-- All that holds of a document and its site after the end, whichever way that went. -/
structure Cleaned (s : Site) (d : Document) (r : Document × Site) : Prop where
  document_eq : r.1 = { scope := d.scope, options := d.options }
  settings_eq : r.2.settings = s.settings
  ids_eq : r.2.ids = s.ids
  nextRun_eq : r.2.nextRun = s.nextRun
  stores_eq : r.2.stores = s.stores.set d.scope .empty
  nodes_eq : r.2.nodes = (s.nodes.recycleAll (d.body.map Node.toChild)).1
  stocked : s.Stocked → r.2.Stocked

variable {s t : Site} {d : Document} {r : Document × Site} {key p : String}

theorem stocked_ofSettings (settings : Settings) (sink : Sink) (firstRun : Nat) :
    (Site.ofSettings settings sink firstRun).Stocked :=
  ⟨Pool.kept_empty _ _, Pool.kept_empty _ _⟩

theorem Stocked.renderPage (h : s.Stocked) (head : Head) (body : List Node) :
    (s.renderPage head body).2.Stocked :=
  ⟨h.1, h.2.acquire.release _⟩

/-! The ways of an end -/

theorem cleaned_clear (s : Site) (d : Document) : Cleaned s d (s.clear d) where
  document_eq := rfl
  settings_eq := rfl
  ids_eq := rfl
  nextRun_eq := rfl
  stores_eq := rfl
  nodes_eq := rfl
  stocked h := ⟨(h.1.recycleAll _).1, h.2⟩

/-- What was done before the end may have changed the contexts, the cache and the meter. -/
theorem Cleaned.after {u : Site} (h : Cleaned u d r) (hsettings : u.settings = s.settings)
    (hids : u.ids = s.ids) (hnextRun : u.nextRun = s.nextRun) (hstores : u.stores = s.stores)
    (hnodes : u.nodes = s.nodes) (hstocked : s.Stocked → u.Stocked) : Cleaned s d r where
  document_eq := h.document_eq
  settings_eq := h.settings_eq.trans hsettings
  ids_eq := h.ids_eq.trans hids
  nextRun_eq := h.nextRun_eq.trans hnextRun
  stores_eq := hstores ▸ h.stores_eq
  nodes_eq := hnodes ▸ h.nodes_eq
  stocked hs := h.stocked (hstocked hs)

/-- What is done with the cache after the end changes nothing of it. -/
theorem Cleaned.onCache (h : Cleaned s d r) (op : Cache.Operation String) :
    Cleaned s d (r.1, (r.2.onCache op).2) :=
  ⟨h.document_eq, h.settings_eq, h.ids_eq, h.nextRun_eq, h.stores_eq, h.nodes_eq, h.stocked⟩

theorem cleaned_renderUncached (s : Site) (d : Document) :
    Cleaned s d (s.renderUncached d).2 :=
  ((s.renderPage d.head d.body).2.cleaned_clear d).after rfl rfl rfl rfl rfl
    fun hs => hs.renderPage d.head d.body

theorem cleaned_render (s : Site) (d : Document) : Cleaned s d (s.render d).2 := by
  have hlooked {r : Document × Site} {key : String}
      (h : Cleaned (s.onCache (.get key)).2 d r) : Cleaned s d r :=
    h.after rfl rfl rfl rfl rfl id
  cases hkey : d.options.usableKey? with
  | none =>
    rw [render_of_unusable hkey]
    exact s.cleaned_renderUncached d
  | some key =>
    cases hp : s.cache.peek key with
    | some p =>
      rw [render_of_hit hkey hp]
      exact hlooked (cleaned_clear _ d)
    | none =>
      rw [render_of_miss hkey hp]
      exact (hlooked (cleaned_renderUncached _ d)).onCache _

theorem Ending.cleaned (e : Ending) (s : Site) (d : Document) : Cleaned s d (e.perform s d) := by
  cases e with
  | render => exact s.cleaned_render d
  | clear | drop => exact s.cleaned_clear d

namespace Cleaned

/-- The states of the document are gone. -/
theorem store_eq (h : Cleaned s d r) : r.2.store d.scope = .empty := by
  rw [store, h.stores_eq, List.getD_eq_getElem?_getD, List.getElem?_set_self']
  cases s.stores[d.scope]? <;> rfl

/-- Every element of the body, at any depth, is given back once. -/
theorem given_eq (h : Cleaned s d r) :
    r.2.nodes.statistics.released + r.2.nodes.statistics.discarded =
      s.nodes.statistics.released + s.nodes.statistics.discarded +
        Child.countAll (d.body.map Node.toChild) := by
  rw [h.nodes_eq, Pool.given_recycleAll]

end Cleaned

/-! What a rendering does besides -/

/-- A document whose page is in the cache is given that page. It is looked up and cleared and nothing
else: no context is used, and no rendering is reported. -/
theorem render_of_cached (hs : s.Stocked) (hp : s.cachedPage? d = some p) :
    (s.render d).1 = p ∧ (s.render d).2.2.contexts = s.contexts ∧
      ∃ rs, (s.render d).2.2.meter = s.meter.takeAll rs ∧ Report.total Metric.renderCount rs = 0 := by
  obtain ⟨key, hkey, hp⟩ := Option.bind_eq_some_iff.1 hp
  rw [render_of_hit hkey hp]
  refine ⟨rfl, rfl, (s.cache.perform (.get key)).2.2 ++
    (s.nodes.recycleAll (d.body.map Node.toChild)).2, ?_, ?_⟩
  · exact (List.foldl_append ..).symm
  · have hget : Report.total Metric.renderCount (s.cache.get key).2.2 = 0 := by
      unfold Cache.get
      split <;> rfl
    have hmetric : Metric.renderCount ∉ Pool.metrics := by decide
    have hrecycled :=
      Report.total_of_isPooling (hs.1.recycleAll (d.body.map Node.toChild)).2 hmetric
    rw [Report.total_append, hrecycled]
    exact hget

/-- A page does not depend on the cache. -/
theorem fst_renderUncached_onCache (s : Site) (op : Cache.Operation String) (d : Document) :
    ((s.onCache op).2.renderUncached d).1 = (s.renderUncached d).1 := by
  simp only [renderUncached, renderPage]
  rfl

/-- A document with a usable key that the cache has no page for is rendered, and its page is then
found under the key, if the cache holds pages at all. -/
theorem render_of_absent (hkey : d.options.usableKey? = some key) (hp : s.cache.peek key = none) :
    (s.render d).1 = (s.renderUncached d).1 ∧
      (0 < s.cache.capacity → (s.render d).2.2.cache.peek key = some (s.render d).1) := by
  rw [render_of_miss hkey hp]
  dsimp only
  refine ⟨s.fst_renderUncached_onCache _ d, fun hcapacity => ?_⟩
  have hstore := Cache.store_get_of_absent hp
  rw [cache_onCache, (quiet_renderUncached _ d).cache, cache_onCache]
  refine Cache.peek_set_self (c := (s.cache.get key).2.1) ?_ ?_
  · rwa [Cache.capacity, hstore]
  · rwa [Cache.peek, hstore]

end Folio.Site
