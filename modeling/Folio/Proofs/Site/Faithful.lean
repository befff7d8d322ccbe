import Folio.Proofs.Site.Serving

/-! Whoever asks at a site at any time is served the page of the key, as long as each page that is
rendered for a key is the page of that key. Builders that come to one page in whatever state their
site is can be relied on for this. -/
namespace Folio.Site

/-! Builders that can be relied on -/

section Reliable

variable {settings : Settings} {page : String → String} {s : Site} {key : String}
  {builder : Builder} {ps : List Pending}

/-- A steady builder that serves the page of a key in whatever state its site is. -/
structure Reliable (settings : Settings) (page : String → String) (key : String)
    (builder : Builder) : Prop extends Steady settings key builder where
  serves : ∀ s, Under settings s → Serves page key builder s

/-- A builder can do any work of its own first. -/
theorem Reliable.after {work : Site → Site} (h : Reliable settings page key builder)
    (hunder : ∀ s, Under settings s → Under settings (work s))
    (hworks : ∀ s, Under settings s → Works page s (work s)) :
    Reliable settings page key fun s => builder (work s) where
  outcome_eq s t hs ht := h.outcome_eq (work s) (work t) (hunder s hs) (hunder t ht)
  under s hs := h.under (work s) (hunder s hs)
  serves s hs := by
    obtain ⟨hown, hpage⟩ := h.serves (work s) (hunder s hs)
    exact ⟨(hworks s hs).trans hown, hpage⟩

theorem reliable_failure (settings : Settings) (page : String → String) (key message : String) :
    Reliable settings page key fun s => (.failure message, s) where
  toSteady := steady_failure settings key message
  serves _ _ := ⟨works_of_quiet ⟨rfl, rfl⟩, by rintro d t ⟨⟩⟩

/-- The page of a head and a body under some settings. -/
def pageOf (settings : Settings) (head : Head) (body : List Node) : String :=
  ((Site.ofSettings settings .silent 0).renderPage head body).1

theorem Under.renderUncached_fst (hs : Under settings s) (d : Document) :
    (s.renderUncached d).1 = pageOf settings d.head d.body :=
  hs.renderPage_eq (under_ofSettings settings .silent 0) d

theorem reliable_builderOf {head : Head} {body : List Node}
    (hpage : pageOf settings head body = page key) :
    Reliable settings page key (builderOf head body) where
  toSteady := steady_builderOf settings key head body
  serves s hs := by
    refine ⟨works_of_quiet ⟨rfl, rfl⟩, ?_⟩
    rintro d t ⟨⟩
    exact ((hs.newDocument {}).renderUncached_fst ⟨s.stores.length, body, head, {}⟩).trans hpage

theorem Under.render (hs : Under settings s) (d : Document) : Under settings (s.render d).2.2 := by
  cases hkey : d.options.usableKey? with
  | none =>
    rw [render_of_unusable hkey]
    exact hs.renderUncached d
  | some key =>
    cases hpeek : s.cache.peek key with
    | some p =>
      rw [render_of_hit hkey hpeek]
      exact (hs.onCache _).drop d
    | none =>
      rw [render_of_miss hkey hpeek]
      exact ((hs.onCache (.get key)).renderUncached d).onCache (.set key _)

/-- A builder can render a page of the site first. -/
theorem Reliable.after_render (h : Reliable settings page key builder) {d : Document}
    (hpage : ∀ key, d.options.usableKey? = some key → pageOf settings d.head d.body = page key) :
    Reliable settings page key fun s => builder (s.render d).2.2 :=
  h.after (fun _ hs => hs.render d) fun _ hs => works_render fun key hkey _ =>
    ((hs.onCache (.get key)).renderUncached_fst d).trans (hpage key hkey)

theorem allServe_runs (hps : ∀ p ∈ ps, Reliable settings page p.key p.builder)
    (hs : Under settings s) : AllServe page (runs ps s) := by
  induction ps generalizing s with
  | nil => exact List.forall_mem_nil _
  | cons p ps ih =>
    rw [List.forall_mem_cons] at hps
    exact List.forall_mem_cons.2 ⟨hps.1.serves s hs, ih hps.2 (hps.1.under_finish hs)⟩

theorem allServe_turnRuns (routes : List (String × Load))
    (hps : ∀ p ∈ ps, Reliable settings page p.key p.builder) (hs : Under settings s) :
    AllServe page (turnRuns routes ps s) := by
  induction ps using turn_induction generalizing s with
  | nil =>
    rw [turnRuns, List.isEmpty_nil, if_pos rfl]
    exact List.forall_mem_nil _
  | turn ps hsome ih =>
    have hturn : ∀ p ∈ ps.take turnLength, Reliable settings page p.key p.builder :=
      fun p hp => hps p (List.mem_of_mem_take hp)
    obtain ⟨-, hunder⟩ := finishAll_steady (fun p hp => (hturn p hp).toSteady) hs hs
    rw [turnRuns, if_neg hsome]
    refine List.forall_mem_append.2 ⟨allServe_runs hturn hs, ?_⟩
    exact ih (fun p hp => hps p (List.mem_of_mem_drop hp)) (hunder.report _)

/-- Requests whose builders can be relied on serve the pages of their keys at any site with the
settings. -/
theorem allServe_requestRuns {items : List (String × Builder)} (hs : Under settings s)
    (hitems : ∀ item ∈ items, Reliable settings page item.1 item.2) :
    AllServe page (s.requestRuns items) := by
  have hbegun := (Begun.nil hs).beginAll (fun _ _ => []) items
  exact allServe_runs (fun p hp => hitems _ (hbegun.mem_items hp))
    (hs.settings_eq ▸ hbegun.under)

theorem allServe_warmupRuns {routes : List (String × Builder)} (hs : Under settings s)
    (hroutes : ∀ route ∈ routes, Reliable settings page route.1 route.2) :
    AllServe page (s.warmupRuns routes) := by
  have hbegun := begun_warmup hs routes
  exact allServe_turnRuns _ (fun p hp => hroutes _ (hbegun.mem_items hp))
    (hs.settings_eq ▸ hbegun.under)

end Reliable

namespace Traffic

variable {page : String → String} {t : Traffic}

/-- Who asks at a site is served the page of the key: what the cache holds, what is delivered to
documents and returned to loads, and what the site does in one go. -/
structure Faithful (page : String → String) (u : Traffic) : Prop where
  held : ∀ key v, u.site.cache.Holds key v → v = page key ∧ Text.isBlankText key = false
  delivered : ∀ visit ∈ u.visits, ∀ key p, visit.options.usableKey? = some key →
    visit.progress = .delivered p → p = page key
  returned : ∀ load ∈ u.loads, ∀ v, load.position = .returned (.ok v) → v = page load.key
  rendered : ∀ d key, d.options.usableKey? = some key →
    (u.site.cache.peek key = none →
      ((u.site.onCache (.get key)).2.renderUncached d).1 = page key) →
    (u.site.render d).1 = page key
  requested : ∀ items, AllServe page (u.site.requestRuns items) →
    ∀ key p, (key, .ok p) ∈ (items.map Prod.fst).zip (u.site.requestAll items).1 → p = page key
  warmed : ∀ routes, AllServe page (u.site.warmupRuns routes) →
    ∀ report ∈ (u.site.warmup routes).1, report.success = true →
      report.size = some (page report.key).utf8ByteSize

theorem Transparent.faithful (ht : Transparent page t) : Faithful page t where
  held := ht.flight.cache
  delivered := by
    intro visit hvisit key p hkey hp
    have hfits := ht.visits visit hvisit key hkey
    rw [hp] at hfits
    exact hfits
  returned := by
    intro load hload v hv
    have hfits : LoadFits page t.tasks load.key load.position := ht.flight.loads load hload
    rw [hv] at hfits
    exact hfits v rfl
  rendered := fun _ _ hkey hpage => ht.render hkey hpage
  requested := fun _ hserves => ht.requestAll hserves
  warmed := fun _ hserves => ht.warmup hserves

theorem Transparent.faithful_of_asked (ht : Transparent page t) {s : Site}
    (h : Relation.ReflTransGen (Asked page) t.site s) :
    ∃ v, v.site = s ∧ t.Keeps v ∧ Faithful page v := by
  obtain ⟨v, hv, hsite, hkeeps⟩ := works_of_asked h t ht rfl
  exact ⟨v, hsite, hkeeps, (ht.leads hv).faithful⟩

/-- The cache is transparent: if each page that was rendered for a key is the page of that key, then
whoever asks at any time is served the page of the key, whatever order the steps were taken in,
whatever was asked of the site in one go since, and whatever was evicted or deleted in between. -/
theorem cache_transparent {page : String → String} {settings : Settings} {sink : Sink}
    {firstRun : Nat} {ts : List Transition} {t : Traffic}
    (h : Run (new settings sink firstRun) ts t)
    (hpage : ∀ τ ∈ ts, ∀ key p, Performed τ key p → p = page key) :
    ∀ u ∈ states ts t, Faithful page u ∧ ∀ s, Relation.ReflTransGen (Asked page) u.site s →
      ∃ v, v.site = s ∧ u.Keeps v ∧ Faithful page v := by
  intro u hu
  obtain ⟨rs, hrs, hsub⟩ := h.exists_of_mem_states hu
  have hnew := transparent_new page settings sink firstRun
  have hfits : Transparent page u := hnew.run hrs fun τ hτ => hpage τ (hsub hτ)
  exact ⟨hfits.faithful, fun _ hasked => hfits.faithful_of_asked hasked⟩

/-- The page with a title and nothing else, at a site that caches one page. -/
def titledPage (title : String) : String :=
  pageOf { cacheCapacity := 1 } { title := some title } []

/-- Builders of pages with their keys as titles, one of which renders a third page first, and one
that fails. -/
def titledItems : List (String × Builder) :=
  [("a", fun s => builderOf { title := some "a" } []
      (s.render ⟨0, [], { title := some "c" }, .cached "c"⟩).2.2),
    ("b", builderOf { title := some "b" } []), ("news", fun s => (.failure "no feed", s))]

theorem reliable_titledItems :
    ∀ item ∈ titledItems, Reliable { cacheCapacity := 1 } titledPage item.1 item.2 := by
  simp only [titledItems, List.forall_mem_cons]
  refine ⟨(reliable_builderOf rfl).after_render ?_, reliable_builderOf rfl,
    reliable_failure _ _ _ _, List.forall_mem_nil _⟩
  rintro key ⟨⟩
  rfl

/-- A document fills a cache for one page, and a request for another page evicts it. The other page
is there for more requests and a warm-up then, and the evicted one is built once more. -/
theorem cache_transparent_after_eviction :
    ∃ (ts : List Transition) (t : Traffic),
      Run (new { cacheCapacity := 1 } .silent 0) ts t ∧
      (∀ τ ∈ ts, ∀ key p, Performed τ key p → p = titledPage key) ∧
      t.site.cache.keys = ["b"] ∧
      (t.visits.map fun visit => (visit.options.usableKey?, visit.progress)) =
        [(some "a", .delivered (titledPage "a"))] ∧
      t.loads.map (·.position) =
        [.returned (.ok (titledPage "a")), .returned (.ok (titledPage "b"))] ∧
      AllServe titledPage (t.site.requestRuns titledItems) ∧
      (t.site.requestAll titledItems).1 =
        [.ok (titledPage "a"), .ok (titledPage "b"), .error (.build "news" "no feed")] ∧
      AllServe titledPage (t.site.warmupRuns titledItems) ∧
      (t.site.warmup titledItems).1 =
        [⟨"a", true, some 182, none⟩, ⟨"b", true, some 182, none⟩,
          ⟨"news", false, none, some "Builder for 'news' failed: no feed"⟩] ∧
      ∀ u ∈ states ts t, Faithful titledPage u ∧
        ∀ s, Relation.ReflTransGen (Asked titledPage) u.site s →
          ∃ v, v.site = s ∧ u.Keeps v ∧ Faithful titledPage v := by
  have hdocument := (Run.start (t := new { cacheCapacity := 1 } .silent 0))
    |>.step (.bring (.cached "a")) |>.step (.look (c := 0) rfl)
    |>.step (.render (c := 0) rfl (titledPage "a")) |>.step (.keep (c := 0) rfl)
  have hhit := hdocument
    |>.step (.request "a") |>.step (.flight rfl (.look (c := 0) rfl))
  have hstarted := hhit
    |>.step (.request "b") |>.step (.flight rfl (.look (c := 1) rfl))
    |>.step (.flight rfl (.enter (c := 1) rfl)) |>.step (.flight rfl (.call (n := 0) rfl))
  have hended := hstarted
    |>.step (.flight rfl (.finish (n := 0) rfl (.value (titledPage "b"))))
    |>.step (.flight rfl (.store (n := 0) rfl))
    |>.step (.flight rfl (.unregister (n := 0) rfl rfl))
    |>.step (.flight rfl (.publish (n := 0) rfl))
    |>.step (.flight rfl (.receive (c := 1) rfl rfl))
  have hother : ∀ {τ : Transition}, τ.act.page? = none →
      ∀ key p, Performed τ key p → p = titledPage key :=
    fun hnone key p h => (not_performed hnone h).elim
  have hunder : Under { cacheCapacity := 1 } (new { cacheCapacity := 1 } .silent 0).site :=
    under_ofSettings _ _ _
  refine ⟨_, _, hended, ?page, rfl, rfl, rfl, allServe_requestRuns ?under reliable_titledItems, ?_,
    allServe_warmupRuns ?under reliable_titledItems, ?_, cache_transparent hended ?page⟩
  case page =>
    simp only [List.nil_append, List.cons_append, List.forall_mem_cons]
    refine ⟨hother rfl, hother rfl, ?_, hother rfl, hother rfl, hother rfl, hother rfl, hother rfl,
      hother rfl, hother rfl, ?_, hother rfl, hother rfl, hother rfl, hother rfl,
      List.forall_mem_nil _⟩
    · intro key p h
      obtain ⟨rfl, options, ⟨⟩, ⟨⟩⟩ := performed_render.1 h
      rfl
    · intro key p h
      obtain ⟨rfl, q, ⟨⟩⟩ := performed_finish.1 h
      rfl
  case under =>
    exact ⟨rfl, hunder.nodes, hunder.contexts, ⟨List.nodup_singleton _, Nat.le_refl _⟩,
      List.forall_mem_nil _⟩
  · decide +kernel
  · decide +kernel

end Traffic

end Folio.Site
