import Folio.Proofs.Site.Warmed

/-! What a site does in one go is some steps of traffic at it: a rendering, requests that are made
together, and a warm-up. Of builders no more is assumed than of the work they do on the sites that
they run on, and this can be any of the same. -/
namespace Folio.Site

/-! What leaves the cache and the registry alone -/

/-- After work that has nothing to do with the cache or the registry of computations. -/
structure Quiet (s t : Site) : Prop where
  cache : t.cache = s.cache
  flights : t.flights = s.flights

theorem Quiet.trans {s t u : Site} (h : Quiet s t) (h' : Quiet t u) : Quiet s u :=
  ⟨h'.cache.trans h.cache, h'.flights.trans h.flights⟩

theorem quiet_report (s : Site) (rs : List Report) : Quiet s (s.report rs) := ⟨rfl, rfl⟩

theorem quiet_clear (s : Site) (d : Document) : Quiet s (s.clear d).2 := ⟨rfl, rfl⟩

theorem quiet_drop (s : Site) (d : Document) : Quiet s (s.drop d) := s.quiet_clear d

theorem quiet_renderUncached (s : Site) (d : Document) : Quiet s (s.renderUncached d).2.2 :=
  ⟨rfl, rfl⟩

/-! The ways of a rendering -/

variable {s : Site} {d : Document} {key p : String}

theorem render_of_unusable (h : d.options.usableKey? = none) : s.render d = s.renderUncached d := by
  rw [render, h]

theorem render_of_hit (hkey : d.options.usableKey? = some key) (hp : s.cache.peek key = some p) :
    s.render d = (p, (s.onCache (.get key)).2.clear d) := by
  rw [render, hkey]
  dsimp only
  rw [onCache_get s key, hp]

theorem render_of_miss (hkey : d.options.usableKey? = some key) (hp : s.cache.peek key = none) :
    s.render d =
      (((s.onCache (.get key)).2.renderUncached d).1,
        ((s.onCache (.get key)).2.renderUncached d).2.1,
        (((s.onCache (.get key)).2.renderUncached d).2.2.onCache
          (.set key ((s.onCache (.get key)).2.renderUncached d).1)).2) := by
  rw [render, hkey]
  dsimp only
  rw [onCache_get s key, hp]

namespace Traffic

variable {page : String → String} {t u v : Traffic}

theorem Run.trans {ts us : List Transition} (h : Run t ts u) (h' : Run u us v) :
    Run t (ts ++ us) v := by
  induction h' with
  | start => simpa using h
  | step _ hs ih => simpa using ih.step hs

/-- Some steps lead from one state to another, and each page that is rendered on the way is the page
of its key. -/
def Leads (page : String → String) (t u : Traffic) : Prop :=
  ∃ ts, Run t ts u ∧ ∀ τ ∈ ts, ∀ key p, Performed τ key p → p = page key

theorem Leads.refl (page : String → String) (t : Traffic) : Leads page t t :=
  ⟨[], .start, List.forall_mem_nil _⟩

theorem Leads.trans (h : Leads page t u) (h' : Leads page u v) : Leads page t v := by
  obtain ⟨ts, hts, hpage⟩ := h
  obtain ⟨us, hus, hpage'⟩ := h'
  exact ⟨ts ++ us, hts.trans hus, List.forall_mem_append.2 ⟨hpage, hpage'⟩⟩

theorem Leads.step {a : Act} (h : Leads page t u) (hs : Step u a v)
    (hpage : ∀ key p, Performed ⟨u, a, v⟩ key p → p = page key) : Leads page t v := by
  obtain ⟨ts, hts, hall⟩ := h
  exact ⟨_, hts.step hs, List.forall_mem_append.2 ⟨hall, List.forall_mem_singleton.2 hpage⟩⟩

theorem Leads.quietly {a : Act} (h : Leads page t u) (hs : Step u a v) (ha : a.page? = none) :
    Leads page t v :=
  h.step hs fun _ _ hperformed => (not_performed ha hperformed).elim

theorem Leads.work (h : Leads page t u) {site : Site} (hsite : Quiet u.site site) :
    Leads page t { u with site } :=
  h.quietly (.work hsite.cache hsite.flights) rfl

theorem Transparent.leads (ht : Transparent page t) (h : Leads page t u) : Transparent page u := by
  obtain ⟨ts, hts, hpage⟩ := h
  exact ht.run hts hpage

/-! Rendering a document -/

/-- With one more visit, the last one. -/
def withVisit (t : Traffic) (options : CacheOptions) (progress : Progress) : Traffic :=
  { t with visits := t.visits ++ [⟨options, progress⟩] }

variable {options : CacheOptions} {progress progress' : Progress} {d : Document} {p : String}

theorem visits_withVisit :
    (t.withVisit options progress).visits[t.visits.length]? = some ⟨options, progress⟩ := by
  simp [withVisit]

theorem setVisit_withVisit :
    (t.withVisit options progress).setVisit t.visits.length options progress' =
      t.withVisit options progress' := by
  simp [withVisit, setVisit]

theorem Leads.render (h : Leads page t (u.withVisit options .missed))
    (hpage : ∀ key, options.usableKey? = some key → p = page key) :
    Leads page t (u.withVisit options (.rendered p)) := by
  have hrendered := h.step (.render visits_withVisit p) (by
    intro key q hperformed
    obtain ⟨rfl, options', hvisit, hkey⟩ := performed_render.1 hperformed
    have hoptions : options = options' := by simpa [visits_withVisit] using hvisit
    exact hpage key (hoptions ▸ hkey))
  rwa [setVisit_withVisit] at hrendered

/-- The site after a page was stored under the usable key of its document, if it has one. -/
def keep (s : Site) (options : CacheOptions) (p : String) : Site :=
  match options.usableKey? with
  | none => s
  | some key => (s.onCache (.set key p)).2

theorem Leads.keep (h : Leads page t (u.withVisit options (.rendered p))) :
    Leads page t
      ({ u with site := Traffic.keep u.site options p }.withVisit options (.delivered p)) := by
  have hkept := h.quietly (.keep visits_withVisit) rfl
  have heq : (u.withVisit options (.rendered p)).kept u.visits.length options p =
      { u with site := Traffic.keep u.site options p }.withVisit options (.delivered p) := by
    unfold kept Traffic.keep
    cases options.usableKey? with
    | none => exact setVisit_withVisit
    | some key =>
      exact setVisit_withVisit (t := { u with site := (u.site.onCache (.set key p)).2 })
  rwa [heq] at hkept

/-- A rendering that the cache does not spare. -/
theorem Leads.renderUncached (h : Leads page t (u.withVisit d.options .missed))
    (hpage : ∀ key, d.options.usableKey? = some key → (u.site.renderUncached d).1 = page key) :
    Leads page t
      ({ u with
        site := Traffic.keep (u.site.renderUncached d).2.2 d.options (u.site.renderUncached d).1
        }.withVisit d.options (.delivered (u.site.renderUncached d).1)) := by
  have hwork : Leads page t
      ({ u with site := (u.site.renderUncached d).2.2 }.withVisit d.options .missed) :=
    h.work (u.site.quiet_renderUncached d)
  exact (hwork.render hpage).keep

/-- The rendering of a document is a visit, which ends with its page. -/
theorem leads_render (t : Traffic) (d : Document)
    (hpage : ∀ key, d.options.usableKey? = some key → t.site.cache.peek key = none →
      ((t.site.onCache (.get key)).2.renderUncached d).1 = page key) :
    Leads page t ({ t with site := (t.site.render d).2.2 }.withVisit d.options
      (.delivered (t.site.render d).1)) := by
  have hbrought : Leads page t (t.withVisit d.options .arrived) :=
    (Leads.refl page t).quietly (.bring d.options) rfl
  have hlooked := hbrought.quietly (.look visits_withVisit) rfl
  rcases looked_cases (t.withVisit d.options .arrived) t.visits.length d.options with
    ⟨hkey, heq⟩ | ⟨key, hkey, ⟨p, hp, heq⟩ | ⟨hp, heq⟩⟩ <;> rw [heq] at hlooked
  · rw [setVisit_withVisit] at hlooked
    have hrendered := hlooked.renderUncached fun key hsome => by simp [hkey] at hsome
    rw [render_of_unusable hkey]
    simpa only [Traffic.keep, hkey] using hrendered
  · have hdelivered : Leads page t
        ({ t with site := (t.site.onCache (.get key)).2 }.withVisit d.options (.delivered p)) :=
      setVisit_withVisit (t := { t with site := (t.site.onCache (.get key)).2 }) ▸ hlooked
    have hpeek : t.site.cache.peek key = some p := hp
    rw [render_of_hit hkey hpeek]
    exact hdelivered.work (quiet_clear _ d)
  · have hmissed : Leads page t
        ({ t with site := (t.site.onCache (.get key)).2 }.withVisit d.options .missed) :=
      setVisit_withVisit (t := { t with site := (t.site.onCache (.get key)).2 }) ▸ hlooked
    have hpeek : t.site.cache.peek key = none := hp
    have hrendered := hmissed.renderUncached fun key' hkey' => by
      obtain rfl := Option.some.inj (hkey.symm.trans hkey')
      exact hpage key hkey hpeek
    rw [render_of_miss hkey hpeek]
    simpa only [Traffic.keep, hkey] using hrendered

/-- A document with a usable key delivers the page of its key, wherever it comes from. -/
theorem Transparent.render (ht : Transparent page t) {d : Document} {key : String}
    (hkey : d.options.usableKey? = some key)
    (hpage : t.site.cache.peek key = none →
      ((t.site.onCache (.get key)).2.renderUncached d).1 = page key) :
    (t.site.render d).1 = page key := by
  have hleads : Leads page t ({ t with site := (t.site.render d).2.2 }.withVisit d.options
      (.delivered (t.site.render d).1)) := leads_render t d fun key' hkey' hmiss => by
    obtain rfl := Option.some.inj (hkey.symm.trans hkey')
    exact hpage hmiss
  exact (ht.leads hleads).visitFits visits_withVisit hkey

/-! Requests -/

open Flight.Protocol (Position Task)

/-- Where a load stands after the first steps of its request. -/
def position : Load → Position String RenderFault
  | .refused fault => .returned (.error (.failed fault))
  | .answered p => .returned (.ok p)
  | .waiting n => .waiting n

/-- With one more load, the last one. -/
def withLoad (t : Traffic) (key : String) (position : Position String RenderFault) : Traffic :=
  { t with loads := t.loads ++ [⟨key, position⟩] }

theorem loads_withLoad {key : String} {q : Position String RenderFault} :
    (t.withLoad key q).flight.loads[t.loads.length]? = some ⟨key, q⟩ := by
  simp [withLoad, flight]

theorem set_loads_withLoad {key : String} {q r : Position String RenderFault} :
    (t.withLoad key q).loads.set t.loads.length ⟨key, r⟩ = (t.withLoad key r).loads := by
  simp [withLoad]

/-- The first lookup of a load. -/
theorem Leads.look {key : String} (h : Leads page t (u.withLoad key .arrived)) :
    Leads page t ({ u with site := (u.site.onCache (.get key)).2 }.withLoad key
      (match u.site.cache.peek key with
        | some v => .returned (.ok v)
        | none => .missed)) := by
  have hlooked := h.quietly (.flight rfl (.look loads_withLoad)) rfl
  have hget : u.site.cache.get key = (u.site.cache.peek key, (u.site.cache.get key).2) :=
    Prod.ext Cache.fst_get rfl
  have hcache : (u.withLoad key .arrived).flight.cache = u.site.cache := rfl
  have hloads : (u.withLoad key .arrived).flight.loads = (u.withLoad key .arrived).loads := rfl
  unfold Flight.Protocol.State.looked at hlooked
  rw [hcache, hget] at hlooked
  cases hp : u.site.cache.peek key with
  | none =>
    simp only [hp, follow, Flight.Protocol.State.setLoad, hloads, set_loads_withLoad] at hlooked
    exact hlooked
  | some v =>
    simp only [hp, follow, Flight.Protocol.State.setLoad, hloads, set_loads_withLoad] at hlooked
    exact hlooked

/-- Where a load stands after its critical section. -/
def entryPosition : Flight.Entry String → Position String RenderFault
  | .answered v => .returned (.ok v)
  | .joined n | .started n => .waiting n

/-- The computations that a critical section starts. -/
def entryTasks (key : String) : Flight.Entry String → List (Task String RenderFault)
  | .answered _ | .joined _ => []
  | .started _ => [⟨key, .spawned⟩]

/-- The critical section of a load. -/
theorem Leads.enter {key : String} (h : Leads page t (u.withLoad key .missed))
    {entry : Flight.Entry String} {flights : Flight.Registry} {rs : List Report}
    (he : Flight.enter key u.site.cache u.site.flights = (entry, flights, rs)) :
    Leads page t ({ u with
      site := { u.site with flights }.report rs
      tasks := u.tasks ++ entryTasks key entry }.withLoad key (entryPosition entry)) := by
  have hentered := h.quietly (.flight rfl (.enter loads_withLoad)) rfl
  have hflight : Flight.enter key (u.withLoad key .missed).flight.cache
      (u.withLoad key .missed).flight.registry = (entry, flights, rs) := he
  have hloads : (u.withLoad key .missed).flight.loads = (u.withLoad key .missed).loads := rfl
  unfold Flight.Protocol.State.entered at hentered
  rw [hflight] at hentered
  cases entry with
  | answered v | joined n =>
    simp only [follow, Flight.Protocol.State.setLoad, hloads, set_loads_withLoad] at hentered
    simp only [entryTasks, List.append_nil]
    exact hentered
  | started n =>
    simp only [follow, Flight.Protocol.State.setLoad, hloads, set_loads_withLoad] at hentered
    exact hentered

/-- A computation that was started and has not run yet. -/
def spawned (p : Pending) : Task String RenderFault := ⟨p.key, .spawned⟩

/-- The first steps of a request. -/
theorem leads_beginLoad (page : String → String) (t : Traffic) (key : String) (builder : Builder) :
    Leads page t ({ t with
      site := (t.site.beginLoad key builder).2.2
      tasks := t.tasks ++ (t.site.beginLoad key builder).2.1.map spawned
      }.withLoad key (position (t.site.beginLoad key builder).1)) := by
  have hasked := (Leads.refl page t).quietly (.request key) rfl
  unfold requested at hasked
  unfold beginLoad
  split
  · next hblank =>
    rw [if_pos hblank] at hasked
    simp only [List.map_nil, List.append_nil]
    exact hasked
  · next hblank =>
    rw [if_neg hblank] at hasked
    have hlooked := Leads.look (u := t) hasked
    rw [onCache_get t.site key]
    cases hp : t.site.cache.peek key with
    | some v =>
      rw [hp] at hlooked
      simp only [List.map_nil, List.append_nil]
      exact hlooked
    | none =>
      rw [hp] at hlooked
      generalize he : Flight.enter key (t.site.onCache (.get key)).2.cache
        (t.site.onCache (.get key)).2.flights = e
      obtain ⟨entry, flights, rs⟩ := e
      have hentered := Leads.enter
        (u := { t with site := (t.site.onCache (.get key)).2 }) hlooked he
      dsimp only
      rw [he]
      cases entry with
      | answered v | joined n | started n => exact hentered

/-- A computation that has nothing to store leaves the registry and publishes. -/
theorem Leads.leave (h : Leads page t u) {n : Nat} {key : String}
    {p : Flight.Protocol.Phase String RenderFault} {o : Flight.Outcome String RenderFault}
    (hn : u.tasks[n]? = some ⟨key, p⟩) (hp : p.settled? = some o) :
    Leads page t { u with
      site := { u.site with flights := u.site.flights.finish key }
      tasks := u.tasks.set n ⟨key, .published o⟩ } := by
  obtain ⟨hlt, -⟩ := List.getElem?_eq_some_iff.1 hn
  have hleft := h.quietly (.flight rfl (.unregister hn hp)) rfl
  have hphase : (u.tasks.set n ⟨key, .unregistered o⟩)[n]? = some ⟨key, .unregistered o⟩ := by
    simp [hlt]
  have hpublished := hleft.quietly (.flight rfl (.publish hphase)) rfl
  have hset : (u.tasks.set n ⟨key, .unregistered o⟩).set n ⟨key, .published o⟩ =
      u.tasks.set n ⟨key, .published o⟩ := List.set_set _
  rw [← hset]
  exact hpublished

/-- The end of a computation in one go is all its steps from the end of its work on. -/
theorem Leads.complete (h : Leads page t u) {n : Nat} {key : String}
    {o : Flight.Outcome String RenderFault} (hn : u.tasks[n]? = some ⟨key, .running⟩)
    (ho : ∀ v, o = .value v → v = page key) :
    Leads page t { u with
      site := ({ u.site with
        cache := (Flight.complete key o u.site.cache u.site.flights).1
        flights := (Flight.complete key o u.site.cache u.site.flights).2.1 } : Site).report
          (Flight.complete key o u.site.cache u.site.flights).2.2
      tasks := u.tasks.set n ⟨key, .published o⟩ } := by
  obtain ⟨hlt, -⟩ := List.getElem?_eq_some_iff.1 hn
  have hended : Leads page t { u with tasks := u.tasks.set n ⟨key, .ended o⟩ } := by
    refine h.step (.flight (a := .finish n o) rfl (.finish hn o)) fun k p hperformed => ?_
    rcases hperformed with ⟨c, options, ⟨⟩, -⟩ | ⟨m, q, hact, hm⟩
    obtain ⟨rfl, rfl⟩ : n = m ∧ o = .value p := by simpa using hact
    obtain ⟨rfl, -⟩ := Flight.Protocol.State.task_unique (s := u.flight) hn hm
    exact ho p rfl
  have hphase : ∀ q : Flight.Protocol.Phase String RenderFault,
      (u.tasks.set n ⟨key, q⟩)[n]? = some ⟨key, q⟩ := by
    intro q
    simp [hlt]
  have hset : ∀ q : Flight.Protocol.Phase String RenderFault,
      (u.tasks.set n ⟨key, q⟩).set n ⟨key, .published o⟩ = u.tasks.set n ⟨key, .published o⟩ :=
    fun q => List.set_set _
  cases o with
  | value v =>
    have hstored := hended.quietly (.flight rfl (.store (hphase _))) rfl
    have hkept : ((u.tasks.set n ⟨key, .ended (.value v)⟩).set n ⟨key, .stored v⟩)[n]? =
        some ⟨key, .stored v⟩ := by simp [hlt]
    have hleft := hstored.leave (o := .value v) hkept rfl
    have hthrice : ((u.tasks.set n ⟨key, .ended (.value v)⟩).set n ⟨key, .stored v⟩).set n
        ⟨key, .published (.value v)⟩ = u.tasks.set n ⟨key, .published (.value v)⟩ := by
      rw [List.set_set, hset]
    rw [← hthrice]
    exact hleft
  | failure e =>
    rw [← hset (.ended (.failure e))]
    exact hended.leave (hphase _) rfl
  | crash reason =>
    rw [← hset (.ended (.crash reason))]
    exact hended.leave (hphase _) rfl

/-- What was under way is as it was, whatever else began since. -/
structure Keeps (t u : Traffic) : Prop where
  loads : t.loads <+: u.loads
  tasks : ∀ (n : Nat) (task : Task String RenderFault), t.tasks[n]? = some task →
    u.tasks[n]? = some task

theorem keeps_of_eq (hloads : u.loads = t.loads) (htasks : u.tasks = t.tasks) : t.Keeps u :=
  ⟨hloads ▸ List.prefix_rfl, fun _ _ hn => htasks ▸ hn⟩

theorem Keeps.trans (h : t.Keeps u) (h' : u.Keeps v) : t.Keeps v :=
  ⟨h.loads.trans h'.loads, fun n task hn => h'.tasks n task (h.tasks n task hn)⟩

end Traffic

/-- Work that changes one site into another is some steps of traffic, whatever is under way, and
leaves that as it was. -/
def Works (page : String → String) (s s' : Site) : Prop :=
  ∀ t : Traffic, t.Transparent page → t.site = s →
    ∃ u, t.Leads page u ∧ u.site = s' ∧ t.Keeps u

section Works

variable {page : String → String} {s t u : Site} {d : Document}

theorem Works.trans (h : Works page s t) (h' : Works page t u) : Works page s u := by
  intro v hv hsite
  obtain ⟨w, hw, hwsite, hvw⟩ := h v hv hsite
  obtain ⟨x, hx, hxsite, hwx⟩ := h' w (hv.leads hw) hwsite
  exact ⟨x, hw.trans hx, hxsite, hvw.trans hwx⟩

theorem works_of_quiet (h : Quiet s t) : Works page s t := by
  rintro v - rfl
  exact ⟨_, (Traffic.Leads.refl page v).work h, rfl, Traffic.keeps_of_eq rfl rfl⟩

theorem works_onCache {op : Cache.Operation String} (hop : op.isSet = false) :
    Works page s (s.onCache op).2 := by
  rintro v - rfl
  exact ⟨_, (Traffic.Leads.refl page v).quietly (.client hop) rfl, rfl,
    Traffic.keeps_of_eq rfl rfl⟩

theorem works_reset : Works page s s.reset := by
  rintro v - rfl
  exact ⟨_, (Traffic.Leads.refl page v).quietly .reset rfl, rfl, Traffic.keeps_of_eq rfl rfl⟩

/-- Rendering a document is work, if what has to be rendered for its key is the page of the key. -/
theorem works_render (hpage : ∀ key, d.options.usableKey? = some key →
    s.cache.peek key = none → ((s.onCache (.get key)).2.renderUncached d).1 = page key) :
    Works page s (s.render d).2.2 := by
  rintro v - rfl
  exact ⟨_, v.leads_render d hpage, rfl, Traffic.keeps_of_eq rfl rfl⟩

end Works

/-- A builder that runs on the site `s` serves the page of a key: it does work there, and if it comes
to a document, this renders as the page. -/
structure Serves (page : String → String) (key : String) (builder : Builder) (s : Site) : Prop where
  works : Works page s (builder s).2
  page : ∀ d t, builder s = (.document d, t) → (t.renderUncached d).1 = page key

/-- The work of a computation after its builder is quiet, and a page that comes out of it is the page
of its key. -/
theorem Serves.compute {page : String → String} {key : String} {builder : Builder} {s : Site}
    (h : Serves page key builder s) :
    Quiet (builder s).2 (s.compute key builder).2 ∧
      ∀ v, (s.compute key builder).1 = .value v → v = page key := by
  generalize hb : builder s = b
  obtain ⟨built, t⟩ := b
  cases built with
  | document d =>
    rw [Site.compute, hb]
    refine ⟨(t.quiet_renderUncached d).trans (quiet_drop _ _), ?_⟩
    rintro v ⟨⟩
    exact h.page d t hb
  | failure message =>
    rw [Site.compute, hb]
    exact ⟨t.quiet_report _, nofun⟩
  | crash message =>
    rw [Site.compute, hb]
    exact ⟨⟨rfl, rfl⟩, nofun⟩

/-! What computations run on -/

/-- Computations that run one after another, each with the site that it runs on. -/
def runs : List Pending → Site → List (Pending × Site)
  | [], _ => []
  | p :: ps, s => (p, s) :: runs ps (s.finish p).2

/-- Computations that run turn by turn, each with the site that it runs on. -/
def turnRuns (routes : List (String × Load)) (pending : List Pending) (s : Site) :
    List (Pending × Site) :=
  if pending.isEmpty then []
  else
    let (results, t) := finishAll (pending.take turnLength) s
    runs (pending.take turnLength) s ++
      turnRuns routes (pending.drop turnLength) (t.report (lateWarnings routes results))
termination_by pending.length
decreasing_by exact length_drop_turnLength ‹_›

/-- The computations that requests start, each with the site that it runs on. -/
def requestRuns (s : Site) (items : List (String × Builder)) : List (Pending × Site) :=
  runs (s.beginAll (fun _ _ => []) items).2.1 (s.beginAll (fun _ _ => []) items).2.2

/-- The computations that a warm-up starts, each with the site that it runs on. -/
def warmupRuns (s : Site) (routes : List (String × Builder)) : List (Pending × Site) :=
  turnRuns (s.warmupLoads routes) (s.warmupBuilds routes) (s.beginAll warnRefused routes).2.2

/-- Each computation serves the page of its key on the site that it runs on. -/
def AllServe (page : String → String) (rs : List (Pending × Site)) : Prop :=
  ∀ r ∈ rs, Serves page r.1.key r.1.builder r.2

namespace Traffic

variable {page : String → String} {t u v : Traffic} {base count count' : Nat}
  {results results' : Results} {ps : List Pending}

/-- So many computations from a place on ran to their ends, and these are their results. What else
was under way is as it was. -/
structure Finishes (page : String → String) (t u : Traffic) (base count : Nat)
    (results : Results) : Prop where
  leads : Leads page t u
  loads : t.loads <+: u.loads
  frame : ∀ m task, (m < base ∨ base + count ≤ m) → t.tasks[m]? = some task →
    u.tasks[m]? = some task
  results : ∀ n r, (n, r) ∈ results → (base ≤ n ∧ n < base + count) ∧
    ∃ key o, u.tasks[n]? = some ⟨key, .published o⟩ ∧ r = published key o

theorem finishes_nil (page : String → String) (t : Traffic) (base : Nat) :
    Finishes page t t base 0 [] :=
  ⟨.refl page t, List.prefix_rfl, fun _ _ _ hm => hm, nofun⟩

theorem Finishes.trans (h : Finishes page t u base count results)
    (h' : Finishes page u v (base + count) count' results') :
    Finishes page t v base (count + count') (results ++ results') where
  leads := h.leads.trans h'.leads
  loads := h.loads.trans h'.loads
  frame m task hm htask := h'.frame m task (by omega) (h.frame m task (by omega) htask)
  results := by
    intro n r hn
    rcases List.mem_append.1 hn with hn | hn
    · obtain ⟨hbounds, key, o, htask, hr⟩ := h.results n r hn
      exact ⟨by omega, key, o, h'.frame n _ (by omega) htask, hr⟩
    · obtain ⟨hbounds, hrest⟩ := h'.results n r hn
      exact ⟨by omega, hrest⟩

theorem Finishes.report (h : Finishes page t u base count results) (rs : List Report) :
    Finishes page t { u with site := u.site.report rs } base count results :=
  ⟨h.leads.work (u.site.quiet_report rs), h.loads, h.frame, h.results⟩

/-- A computation that runs to its end. -/
theorem finishes_finish (ht : Transparent page t) {p : Pending}
    (hp : t.tasks[p.number]? = some (spawned p)) (hserves : Serves page p.key p.builder t.site) :
    ∃ u, u.site = (t.site.finish p).2 ∧
      Finishes page t u p.number 1 [(p.number, (t.site.finish p).1)] := by
  obtain ⟨hlt, -⟩ := List.getElem?_eq_some_iff.1 hp
  have hcalled := (Leads.refl page t).quietly (.flight rfl (.call hp)) rfl
  obtain ⟨u, hbuilt, hsite, hkeeps⟩ := hserves.works _ (ht.leads hcalled) rfl
  obtain ⟨hquiet, hvalue⟩ := hserves.compute
  have hworked := (hcalled.trans hbuilt).work (hsite ▸ hquiet)
  have hrunning : u.tasks[p.number]? = some ⟨p.key, .running⟩ := by
    refine hkeeps.tasks _ _ ?_
    simp [follow, flight, Flight.Protocol.State.setTask, hlt]
  obtain ⟨hlt', -⟩ := List.getElem?_eq_some_iff.1 hrunning
  refine ⟨_, ?_, hworked.complete hrunning hvalue, hkeeps.loads, fun m task hm htask => ?_,
    fun n r hn => ?_⟩
  · rfl
  · have hne : p.number ≠ m := by omega
    rw [List.getElem?_set_ne hne]
    refine hkeeps.tasks _ _ ?_
    simpa [follow, flight, Flight.Protocol.State.setTask, hne] using htask
  · obtain ⟨rfl, rfl⟩ := Prod.mk.inj (List.mem_singleton.1 hn)
    refine ⟨by omega, p.key, (t.site.compute p.key p.builder).1, ?_, rfl⟩
    simp [hlt']

/-- The computations from a place on that are still to be run. -/
def Placed (t : Traffic) (base : Nat) (ps : List Pending) : Prop :=
  ∀ i p, ps[i]? = some p → p.number = base + i ∧ t.tasks[base + i]? = some (spawned p)

theorem Placed.take (h : t.Placed base ps) (n : Nat) : t.Placed base (ps.take n) := by
  intro i p hi
  rw [List.getElem?_take] at hi
  split at hi
  · exact h i p hi
  · cases hi

theorem Placed.drop (h : t.Placed base ps) {n : Nat}
    (hu : Finishes page t u base (ps.take n).length results) :
    u.Placed (base + (ps.take n).length) (ps.drop n) := by
  intro i p hi
  rw [List.getElem?_drop] at hi
  obtain ⟨hlt, -⟩ := List.getElem?_eq_some_iff.1 hi
  have hlength : (ps.take n).length = n := by
    rw [List.length_take]
    omega
  obtain ⟨hnumber, htask⟩ := h (n + i) p hi
  rw [hlength] at hu ⊢
  rw [← Nat.add_assoc] at hnumber htask
  exact ⟨hnumber, hu.frame _ _ (by omega) htask⟩

theorem finishes_finishAll (ht : Transparent page t) (hplaced : t.Placed base ps)
    (hserves : AllServe page (runs ps t.site)) :
    ∃ u, u.site = (finishAll ps t.site).2 ∧
      Finishes page t u base ps.length (finishAll ps t.site).1 := by
  induction ps generalizing t base with
  | nil => exact ⟨t, rfl, finishes_nil page t base⟩
  | cons p ps ih =>
    obtain ⟨hfirst, hmore⟩ := List.forall_mem_cons.1 hserves
    obtain ⟨hnumber, hspawned⟩ := hplaced 0 p rfl
    obtain rfl : p.number = base := hnumber
    obtain ⟨u, hsite, hu⟩ := finishes_finish ht hspawned hfirst
    have hrest : u.Placed (p.number + 1) ps := hplaced.drop (n := 1) hu
    rw [← hsite] at hmore
    obtain ⟨v, hv, hall⟩ := ih (ht.leads hu.leads) hrest hmore
    rw [hsite] at hv hall
    have hboth := hu.trans hall
    rw [Nat.add_comm 1] at hboth
    exact ⟨v, hv, hboth⟩

/-- Turns are computations one after another, with warnings in between. -/
theorem finishes_finishTurns (routes : List (String × Load)) (ht : Transparent page t)
    (hplaced : t.Placed base ps) (hserves : AllServe page (turnRuns routes ps t.site)) :
    ∃ u, u.site = (finishTurns routes ps t.site).2 ∧
      Finishes page t u base ps.length (finishTurns routes ps t.site).1 := by
  induction ps using turn_induction generalizing t base with
  | nil =>
    rw [finishTurns_nil]
    exact ⟨t, rfl, finishes_nil page t base⟩
  | turn ps hsome ih =>
    rw [turnRuns, if_neg hsome] at hserves
    rw [finishTurns, if_neg hsome]
    obtain ⟨hfirst, hmore⟩ := List.forall_mem_append.1 hserves
    obtain ⟨u, hu, hturn⟩ := finishes_finishAll ht (hplaced.take turnLength) hfirst
    have hwarned := hturn.report
      (lateWarnings routes (finishAll (ps.take turnLength) t.site).1)
    rw [← hu] at hmore
    obtain ⟨v, hv, hrest⟩ := ih (ht.leads hwarned.leads) (hplaced.drop hwarned) hmore
    have hall := hwarned.trans hrest
    rw [← List.length_append, List.take_append_drop] at hall
    simp only [hu] at hv hall
    exact ⟨v, hv, hall⟩

/-! Requests that are made together -/

/-- A critical section numbers the computation that it starts. -/
theorem started_of_enter {key : String} {cache : Cache String} {r : Flight.Registry} {n : Nat}
    (h : (Flight.enter key cache r).1 = .started n) : n = r.started := by
  unfold Flight.enter at h
  split at h
  · cases h
  · split at h
    · cases h
    · exact (Flight.Entry.started.inj h).symm

/-- A request starts at most one computation. -/
theorem pending_beginLoad (s : Site) (key : String) (builder : Builder) :
    (s.beginLoad key builder).2.1 = [] ∨
      (s.beginLoad key builder).2.1 = [⟨s.flights.started, key, builder⟩] := by
  unfold beginLoad
  split
  · exact .inl rfl
  · rw [onCache_get s key]
    cases s.cache.peek key with
    | some p => exact .inl rfl
    | none =>
      dsimp only
      split
      · exact .inl rfl
      · exact .inl rfl
      · next n hentry =>
        obtain rfl : n = s.flights.started := started_of_enter hentry
        exact .inr rfl

/-- The loads of requests after their first steps. -/
def loadsOf (items : List (String × Builder)) (loads : List Load) :
    List (Flight.Protocol.Load String RenderFault) :=
  (items.zip loads).map fun e => ⟨e.1.1, position e.2⟩

theorem mem_loadsOf {items : List (String × Builder)} {loads : List Load} {key : String}
    {load : Load} (h : (key, load) ∈ (items.map Prod.fst).zip loads) :
    ⟨key, position load⟩ ∈ loadsOf items loads := by
  rw [List.zip_map_left] at h
  obtain ⟨e, he, heq⟩ := List.mem_map.1 h
  obtain ⟨rfl, rfl⟩ := Prod.mk.inj heq
  exact List.mem_map.2 ⟨e, he, rfl⟩

/-- The first steps of requests lead to where the computations that they start are still to be run.
-/
theorem leads_beginAll (ht : Transparent page t) (onLoad : String → Load → List Report)
    (items : List (String × Builder)) :
    ∃ u, Leads page t u ∧ u.site = (beginAll onLoad items t.site).2.2 ∧
      u.loads = t.loads ++ loadsOf items (beginAll onLoad items t.site).1 ∧
      u.tasks = t.tasks ++ (beginAll onLoad items t.site).2.1.map spawned ∧
      ∀ i p, (beginAll onLoad items t.site).2.1[i]? = some p → p.number = t.tasks.length + i := by
  induction items generalizing t with
  | nil => exact ⟨t, .refl page t, rfl, by simp [loadsOf], by simp [beginAll], nofun⟩
  | cons item items ih =>
    obtain ⟨key, builder⟩ := item
    have hbegun := leads_beginLoad page t key builder
    generalize hr : t.site.beginLoad key builder = r at hbegun
    obtain ⟨load, pending, s⟩ := r
    have hreported := hbegun.work (s.quiet_report (onLoad key load))
    obtain ⟨u, hu, hsite, hloads, htasks, hpending⟩ := ih (ht.leads hreported)
    simp only [beginAll, hr]
    refine ⟨u, hreported.trans hu, hsite, ?_, ?_, ?_⟩
    · rw [hloads]
      simp [withLoad, loadsOf]
    · rw [htasks]
      simp [withLoad]
    · have hstarted : t.site.flights.started = t.tasks.length := ht.flight.coherent.started_eq
      have hfirst := pending_beginLoad t.site key builder
      rw [hr, hstarted] at hfirst
      intro i p hi
      rcases hfirst with rfl | rfl
      · simpa [withLoad] using hpending i p hi
      · cases i with
        | zero =>
          obtain rfl := Option.some.inj hi
          rfl
        | succ i =>
          rw [hpending i p hi]
          simp only [withLoad, List.length_append, List.map_cons, List.map_nil,
            List.length_singleton]
          omega

/-- A request that succeeds has the page of its key, whether it found it or waited for it. -/
theorem page_of_outcome (ht : Transparent page t) (hresults : Finishes page t u base count results)
    {key : String} {load : Load} (hload : ⟨key, position load⟩ ∈ t.loads) {p : String}
    (hp : outcomeOf results load = .ok p) : p = page key := by
  have hu := ht.leads hresults.leads
  have hfits : LoadFits page u.tasks key (position load) :=
    hu.flight.loads ⟨key, position load⟩ (hresults.loads.subset hload)
  cases load with
  | refused fault => cases hp
  | answered q =>
    obtain rfl := Except.ok.inj hp
    exact hfits q rfl
  | waiting n =>
    simp only [outcomeOf] at hp
    split at hp
    · next r hr =>
      obtain ⟨-, key', o, htask, rfl⟩ := hresults.results n r (Entries.mem_of_get? hr)
      obtain ⟨-, q, hq⟩ := hfits
      obtain ⟨rfl, rfl⟩ := Flight.Protocol.State.task_unique (s := u.flight) hq htask
      cases o with
      | value w =>
        obtain rfl := Except.ok.inj hp
        exact (hu.flight.tasks _ (List.mem_of_getElem? htask)).value w rfl
      | failure e | crash reason => cases hp
    · cases hp

theorem placed_of_append {us : List Pending} (htasks : u.tasks = t.tasks ++ us.map spawned)
    (hnumber : ∀ i p, us[i]? = some p → p.number = t.tasks.length + i) :
    u.Placed t.tasks.length us := by
  intro i p hi
  refine ⟨hnumber i p hi, ?_⟩
  rw [htasks, List.getElem?_append_right (Nat.le_add_right ..), Nat.add_sub_cancel_left,
    List.getElem?_map, hi]
  rfl

/-- After requests were made and the computations that they started ran to their ends. -/
structure Answers (page : String → String) (t u : Traffic) (items : List (String × Builder))
    (loads : List Load) (results : Results) : Prop where
  leads : Leads page t u
  keeps : t.Keeps u
  page : ∀ key load p, (key, load) ∈ (items.map Prod.fst).zip loads →
    outcomeOf results load = .ok p → p = page key

theorem Finishes.answers {items : List (String × Builder)} {loads : List Load}
    {us : List Pending} (h : Finishes page u v t.tasks.length count results)
    (ht : Transparent page t) (hu : Leads page t u)
    (hloads : u.loads = t.loads ++ loadsOf items loads)
    (htasks : u.tasks = t.tasks ++ us.map spawned) : Answers page t v items loads results where
  leads := hu.trans h.leads
  keeps := by
    refine ⟨(List.prefix_append ..).trans (hloads ▸ h.loads), fun n task hn => ?_⟩
    obtain ⟨hlt, -⟩ := List.getElem?_eq_some_iff.1 hn
    refine h.frame n task (.inl hlt) ?_
    rw [htasks, List.getElem?_append_left hlt, hn]
  page key load p hmem houtcome := by
    refine page_of_outcome (ht.leads hu) h ?_ houtcome
    rw [hloads]
    exact List.mem_append_right _ (mem_loadsOf hmem)

theorem exists_answers_requestAll (ht : Transparent page t) {items : List (String × Builder)}
    (hserves : AllServe page (t.site.requestRuns items)) :
    ∃ u, u.site = (t.site.requestAll items).2 ∧
      Answers page t u items (t.site.beginAll (fun _ _ => []) items).1
        (finishAll (t.site.beginAll (fun _ _ => []) items).2.1
          (t.site.beginAll (fun _ _ => []) items).2.2).1 := by
  obtain ⟨u, hu, hsite, hloads, htasks, hpending⟩ := leads_beginAll ht (fun _ _ => []) items
  obtain ⟨v, hv, hall⟩ := finishes_finishAll (ht.leads hu) (placed_of_append htasks hpending)
    (hsite ▸ hserves)
  rw [hsite] at hv hall
  exact ⟨v, hv, hall.answers ht hu hloads htasks⟩

theorem exists_answers_warmup (ht : Transparent page t) {routes : List (String × Builder)}
    (hserves : AllServe page (t.site.warmupRuns routes)) :
    ∃ u, u.site = (t.site.warmup routes).2 ∧
      Answers page t u routes (t.site.beginAll warnRefused routes).1
        (t.site.warmupResults routes) := by
  obtain ⟨u, hu, hsite, hloads, htasks, hpending⟩ := leads_beginAll ht warnRefused routes
  obtain ⟨v, hv, hall⟩ := finishes_finishTurns (t.site.warmupLoads routes) (ht.leads hu)
    (placed_of_append htasks hpending) (hsite ▸ hserves)
  rw [hsite] at hv hall
  have hanswers := hall.answers ht hu hloads htasks
  have hquiet : Quiet v.site (t.site.warmup routes).2 := by
    rw [hv]
    exact quiet_report _ _
  exact ⟨_, rfl, hanswers.leads.work hquiet, hanswers.keeps.trans (keeps_of_eq rfl rfl),
    hanswers.page⟩

/-- Requests that are made together succeed with the pages of their keys. -/
theorem Transparent.requestAll (ht : Transparent page t) {items : List (String × Builder)}
    (hserves : AllServe page (t.site.requestRuns items)) :
    ∀ key p, (key, .ok p) ∈ (items.map Prod.fst).zip (t.site.requestAll items).1 →
      p = page key := by
  obtain ⟨u, -, hanswers⟩ := exists_answers_requestAll ht hserves
  intro key p hmem
  unfold Site.requestAll at hmem
  rw [List.zip_map_right] at hmem
  obtain ⟨⟨key', load⟩, hpair, heq⟩ := List.mem_map.1 hmem
  obtain ⟨rfl, houtcome⟩ := Prod.mk.inj heq
  exact hanswers.page _ load p hpair houtcome

/-- A warm-up measures the pages of the keys of its routes. -/
theorem Transparent.warmup (ht : Transparent page t) {routes : List (String × Builder)}
    (hserves : AllServe page (t.site.warmupRuns routes)) :
    ∀ report ∈ (t.site.warmup routes).1, report.success = true →
      report.size = some (page report.key).utf8ByteSize := by
  obtain ⟨u, -, hanswers⟩ := exists_answers_warmup ht hserves
  intro report hreport hsuccess
  rw [← reportsAmong_nil] at hreport
  obtain ⟨⟨key, load⟩, hpair, rfl⟩ := List.mem_map.1 hreport
  dsimp only at hsuccess ⊢
  rw [List.nil_append] at hsuccess ⊢
  cases houtcome : outcomeOf (t.site.warmupResults routes) load with
  | error fault => simp [houtcome, warmupReport] at hsuccess
  | ok p => rw [warmupReport, hanswers.page key load p hpair houtcome]

end Traffic

/-! What can be asked of a site -/

/-- What can be asked of a site in one go, and where it leads. What has to be rendered for a key is
the page of the key. -/
inductive Asked (page : String → String) (s : Site) : Site → Prop
  | client {op : Cache.Operation String} (hop : op.isSet = false) : Asked page s (s.onCache op).2
  | reset : Asked page s s.reset
  | render {d : Document} (hpage : ∀ key, d.options.usableKey? = some key →
      s.cache.peek key = none → ((s.onCache (.get key)).2.renderUncached d).1 = page key) :
    Asked page s (s.render d).2.2
  | request {items : List (String × Builder)} (hserves : AllServe page (s.requestRuns items)) :
    Asked page s (s.requestAll items).2
  | warmup {routes : List (String × Builder)} (hserves : AllServe page (s.warmupRuns routes)) :
    Asked page s (s.warmup routes).2
  | work {t : Site} (h : Quiet s t) : Asked page s t

section Asked

variable {page : String → String} {s t : Site}

/-- Requests whose builders do no more than work are work. -/
theorem works_requestAll {items : List (String × Builder)}
    (hserves : AllServe page (s.requestRuns items)) : Works page s (s.requestAll items).2 := by
  rintro t ht rfl
  obtain ⟨u, hu, hanswers⟩ := Traffic.exists_answers_requestAll ht hserves
  exact ⟨u, hanswers.leads, hu, hanswers.keeps⟩

theorem works_warmup {routes : List (String × Builder)}
    (hserves : AllServe page (s.warmupRuns routes)) : Works page s (s.warmup routes).2 := by
  rintro t ht rfl
  obtain ⟨u, hu, hanswers⟩ := Traffic.exists_answers_warmup ht hserves
  exact ⟨u, hanswers.leads, hu, hanswers.keeps⟩

theorem Asked.works (h : Asked page s t) : Works page s t := by
  cases h with
  | client hop => exact works_onCache hop
  | reset => exact works_reset
  | render hpage => exact works_render hpage
  | request hserves => exact works_requestAll hserves
  | warmup hserves => exact works_warmup hserves
  | work h => exact works_of_quiet h

/-- Whatever is asked of a site, one thing after another, is work. -/
theorem works_of_asked (h : Relation.ReflTransGen (Asked page) s t) : Works page s t := by
  induction h with
  | refl => exact works_of_quiet ⟨rfl, rfl⟩
  | tail _ hasked ih => exact ih.trans hasked.works

end Asked

end Folio.Site
