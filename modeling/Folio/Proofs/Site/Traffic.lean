import Folio.Proofs.Cache.Contents
import Folio.Proofs.Flight.Lineage
import Folio.Site.Request

/-! All that reads or fills the cache of a site at one time: documents that are rendered with their
own key, requests and the computations they start, and clients. They take their steps in any order,
with any other work on the site in between. Whatever the order, a page is only ever found under the
key that it was rendered for. -/
namespace Folio.Site

open Flight (Outcome Fault)

/-- How far the rendering of a document has come. -/
inductive Progress where
  | arrived
  /-- The cache has nothing for it. -/
  | missed
  | rendered (page : String)
  | delivered (page : String)

/-- A document that is rendered, as far as caching goes. -/
structure Visit where
  options : CacheOptions
  progress : Progress

/-- A site and what is going on at it. Loads, computations and visits go by their places in the
lists, which only grow. -/
structure Traffic where
  site : Site
  loads : List (Flight.Protocol.Load String RenderFault) := []
  tasks : List (Flight.Protocol.Task String RenderFault) := []
  visits : List Visit := []

/-- The steps of loads and computations once they are under way. -/
def isInternal : Flight.Protocol.Act String RenderFault → Bool
  | .arrive _ | .client _ => false
  | .look _ | .enter _ | .receive _ | .abandon _ | .call _ | .finish _ _ | .store _
  | .unregister _ | .publish _ => true

namespace Traffic

/-- A step and who takes it. -/
inductive Act where
  | bring (options : CacheOptions)
  | look (c : Nat)
  | render (c : Nat) (page : String)
  | keep (c : Nat)
  | request (key : String)
  | flight (a : Flight.Protocol.Act String RenderFault)
  | client (op : Cache.Operation String)
  | reset
  | work

variable (t : Traffic)

/-- The loads and computations as a state of their own step system. -/
def flight : Flight.Protocol.State String RenderFault where
  cache := t.site.cache
  registry := t.site.flights
  loads := t.loads
  tasks := t.tasks

/-- After a step of a load or a computation. -/
def follow (u : Flight.Protocol.State String RenderFault) : Traffic :=
  { t with
    site := { t.site with cache := u.cache, flights := u.registry }.report u.reports
    loads := u.loads
    tasks := u.tasks }

def setVisit (c : Nat) (options : CacheOptions) (progress : Progress) : Traffic :=
  { t with visits := t.visits.set c ⟨options, progress⟩ }

/-- After a document asked the cache for its key, if it has a usable one. -/
def looked (c : Nat) (options : CacheOptions) : Traffic :=
  match options.usableKey? with
  | none => t.setVisit c options .missed
  | some key =>
    match t.site.onCache (.get key) with
    | (.value (some page), site) => { t with site }.setVisit c options (.delivered page)
    | (_, site) => { t with site }.setVisit c options .missed

/-- After a rendered page was stored under the usable key of its document, if it has one. -/
def kept (c : Nat) (options : CacheOptions) (page : String) : Traffic :=
  match options.usableKey? with
  | none => t.setVisit c options (.delivered page)
  | some key =>
    { t with site := (t.site.onCache (.set key page)).2 }.setVisit c options (.delivered page)

/-- The fault of a request without a key. -/
def blankKey : RenderFault := .structural (.malformedRoute "cache key must not be empty")

/-- After a request came in. One with a blank key is refused at once. -/
def requested (key : String) : Traffic :=
  if Text.isBlankText key then
    { t with loads := t.loads ++ [⟨key, .returned (.error (.failed blankKey))⟩] }
  else { t with loads := t.loads ++ [⟨key, .arrived⟩] }

/-- What can happen next. A page comes out of a rendering as it may; what else the rendering does to
the site is work in between. -/
inductive Step (t : Traffic) : Act → Traffic → Prop
  | bring (options : CacheOptions) :
    Step t (.bring options) { t with visits := t.visits ++ [⟨options, .arrived⟩] }
  | look {c : Nat} {options : CacheOptions} (h : t.visits[c]? = some ⟨options, .arrived⟩) :
    Step t (.look c) (t.looked c options)
  | render {c : Nat} {options : CacheOptions} (h : t.visits[c]? = some ⟨options, .missed⟩)
    (page : String) : Step t (.render c page) (t.setVisit c options (.rendered page))
  | keep {c : Nat} {options : CacheOptions} {page : String}
    (h : t.visits[c]? = some ⟨options, .rendered page⟩) :
    Step t (.keep c) (t.kept c options page)
  | request (key : String) : Step t (.request key) (t.requested key)
  | flight {a : Flight.Protocol.Act String RenderFault}
    {u : Flight.Protocol.State String RenderFault} (ha : isInternal a = true)
    (h : Flight.Protocol.Step t.flight a u) : Step t (.flight a) (t.follow u)
  | client {op : Cache.Operation String} (hop : op.isSet = false) :
    Step t (.client op) { t with site := (t.site.onCache op).2 }
  | reset : Step t .reset { t with site := t.site.reset }
  | work {site : Site} (hcache : site.cache = t.site.cache)
    (hflights : site.flights = t.site.flights) : Step t .work { t with site }

/-- A step with the states before and after it. -/
structure Transition where
  source : Traffic
  act : Act
  target : Traffic

/-- Steps one after another from a state, the last at the end. -/
inductive Run (t : Traffic) : List Transition → Traffic → Prop
  | start : Run t [] t
  | step {ts : List Transition} {u v : Traffic} {a : Act} (h : Run t ts u) (hs : Step u a v) :
    Run t (ts ++ [⟨u, a, v⟩]) v

/-- A page was rendered for a key: that of a document, or that of a computation. -/
def Performed (τ : Transition) (key page : String) : Prop :=
  (∃ c options, τ.act = .render c page ∧ τ.source.visits[c]? = some ⟨options, .missed⟩ ∧
    options.usableKey? = some key) ∨
  ∃ n p, τ.act = .flight (.finish n (.value page)) ∧ τ.source.tasks[n]? = some ⟨key, p⟩

/-- The page that comes out of a step. -/
def Act.page? : Act → Option String
  | .render _ page | .flight (.finish _ (.value page)) => some page
  | _ => none

theorem not_performed {τ : Transition} {key page : String} (h : τ.act.page? = none) :
    ¬ Performed τ key page := by
  rintro (⟨c, options, hact, -⟩ | ⟨n, p, hact, -⟩) <;> simp [hact, Act.page?] at h

theorem performed_render {t u : Traffic} {c : Nat} {key page p : String} :
    Performed ⟨t, .render c page, u⟩ key p ↔ page = p ∧
      ∃ options, t.visits[c]? = some ⟨options, .missed⟩ ∧ options.usableKey? = some key := by
  constructor
  · rintro (⟨c, options, ⟨⟩, h⟩ | ⟨n, q, ⟨⟩, h⟩)
    exact ⟨rfl, options, h⟩
  · rintro ⟨rfl, options, h⟩
    exact .inl ⟨c, options, rfl, h⟩

theorem performed_finish {t u : Traffic} {n : Nat} {key page p : String} :
    Performed ⟨t, .flight (.finish n (.value page)), u⟩ key p ↔ page = p ∧
      ∃ q, t.tasks[n]? = some ⟨key, q⟩ := by
  constructor
  · rintro (⟨c, options, ⟨⟩, h⟩ | ⟨n, q, ⟨⟩, h⟩)
    exact ⟨rfl, q, h⟩
  · rintro ⟨rfl, q, h⟩
    exact .inr ⟨n, q, rfl, h⟩

end Traffic

/-! Loads and computations -/

namespace Traffic

open Flight.Protocol (State Load Task Position Phase Coherent)

variable {page : String → String}

/-- What a load has come to fits the pages. A load that waits does so for its own key. -/
def LoadFits (page : String → String) (tasks : List (Task String RenderFault)) (key : String) :
    Position String RenderFault → Prop
  | .arrived | .missed => Text.isBlankText key = false
  | .waiting n => Text.isBlankText key = false ∧ ∃ p, tasks[n]? = some ⟨key, p⟩
  | .returned r => ∀ v, r = .ok v → v = page key
  | .abandoned => True

/-- What a computation has come to fits the pages. -/
structure TaskFits (page : String → String) (task : Task String RenderFault) : Prop where
  notBlank : Text.isBlankText task.key = false
  value : ∀ v, task.phase.outcome? = some (.value v) → v = page task.key

/-- What a cache holds fits the pages. -/
def CacheFits (page : String → String) (cache : Cache String) : Prop :=
  ∀ key v, cache.Holds key v → v = page key ∧ Text.isBlankText key = false

/-- Loads, computations and the cache fit the pages. -/
structure Fits (page : String → String) (s : State String RenderFault) : Prop where
  coherent : Coherent s
  cache : CacheFits page s.cache
  loads : ∀ l ∈ s.loads, LoadFits page s.tasks l.key l.position
  tasks : ∀ task ∈ s.tasks, TaskFits page task

variable {s u : State String RenderFault} {a : Flight.Protocol.Act String RenderFault}
  {key : String} {n : Nat}

theorem CacheFits.get {cache : Cache String} (h : CacheFits page cache) :
    CacheFits page (cache.get key).2.1 := fun k v hv => h k v (Cache.holds_of_get hv)

theorem CacheFits.set {cache : Cache String} (h : CacheFits page cache) {v : String}
    (hkey : Text.isBlankText key = false) (hv : v = page key) :
    CacheFits page (cache.set key v).2.1 := by
  intro k w hw
  rcases Cache.holds_of_set hw with ⟨rfl, rfl⟩ | hw
  · exact ⟨hv, hkey⟩
  · exact h k w hw

/-- Computations keep their keys, so a step leaves what loads wait for. -/
theorem LoadFits.step (h : Flight.Protocol.Step s a u) {p : Position String RenderFault}
    (hp : LoadFits page s.tasks key p) : LoadFits page u.tasks key p := by
  cases p with
  | arrived | missed | returned r | abandoned => exact hp
  | waiting n =>
    obtain ⟨hkey, q, hq⟩ := hp
    obtain ⟨q', hq', -⟩ := Flight.Protocol.task_step h hq
    exact ⟨hkey, q', hq'⟩

/-- A step moves one load at most. -/
theorem loadsFit_set (h : Flight.Protocol.Step s a u) (hs : Fits page s) {c : Nat}
    {p : Position String RenderFault} (hl : u.loads = s.loads.set c ⟨key, p⟩)
    (hp : LoadFits page u.tasks key p) : ∀ l ∈ u.loads, LoadFits page u.tasks l.key l.position := by
  intro l hmem
  rw [hl] at hmem
  rcases List.mem_or_eq_of_mem_set hmem with hmem | rfl
  · exact (hs.loads l hmem).step h
  · exact hp

/-- A step moves one computation at most, and keeps its key. -/
theorem tasksFit_set (hs : Fits page s) {p q : Phase String RenderFault}
    (hn : s.tasks[n]? = some ⟨key, p⟩) (ht : u.tasks = s.tasks.set n ⟨key, q⟩)
    (hq : ∀ v, q.outcome? = some (.value v) → v = page key) : ∀ task ∈ u.tasks, TaskFits page task := by
  intro task hmem
  rw [ht] at hmem
  rcases List.mem_or_eq_of_mem_set hmem with hmem | rfl
  · exact hs.tasks task hmem
  · exact ⟨(hs.tasks _ (List.mem_of_getElem? hn)).notBlank, hq⟩

theorem fits_step (h : Flight.Protocol.Step s a u) (ha : isInternal a = true) (hs : Fits page s)
    (hpage : ∀ n v key p, a = .finish n (.value v) → s.tasks[n]? = some ⟨key, p⟩ → v = page key) :
    Fits page u := by
  have hcoherent : Coherent u := Flight.Protocol.coherent_step h hs.coherent
  have hstep := h
  -- a computation keeps the outcome it has, so only its end needs the pages
  have hvalue : ∀ {n : Nat} {key : String} {p : Phase String RenderFault},
      s.tasks[n]? = some ⟨key, p⟩ → ∀ v, p.outcome? = some (.value v) → v = page key :=
    fun hn => (hs.tasks _ (List.mem_of_getElem? hn)).value
  have hloads : u.loads = s.loads → ∀ l ∈ u.loads, LoadFits page u.tasks l.key l.position :=
    fun hl l hmem => (hs.loads l (hl ▸ hmem)).step hstep
  cases h with
  | arrive key | client op => cases ha
  | @look c key hc =>
    have hblank : Text.isBlankText key = false := hs.loads _ (List.mem_of_getElem? hc)
    refine ⟨hcoherent, by simpa using hs.cache.get, ?_, by simpa using hs.tasks⟩
    refine loadsFit_set hstep hs Flight.Protocol.State.looked_loads ?_
    split
    · next v hv =>
      rintro w ⟨⟩
      exact (hs.cache key v (Cache.holds_of_peek hv)).1
    · exact hblank
  | @enter c key hc =>
    have hblank : Text.isBlankText key = false := hs.loads _ (List.mem_of_getElem? hc)
    have hcache : CacheFits page (s.entered c key).cache := by simpa using hs.cache
    rcases s.entered_cases c key with ⟨v, hv, ht⟩ | ⟨m, -, hm, ht⟩ | ⟨-, hm, ht⟩
    · refine ⟨hcoherent, hcache, loadsFit_set hstep hs (by rw [ht]; rfl) ?_, ?_⟩
      · rintro w ⟨⟩
        exact (hs.cache key v (Cache.holds_of_peek hv)).1
      · rw [ht]
        exact hs.tasks
    · refine ⟨hcoherent, hcache, loadsFit_set hstep hs (by rw [ht]) ?_, ?_⟩
      · obtain ⟨p, hp, -⟩ := (hs.coherent.find?_eq_some_iff key m).1 hm
        rw [ht]
        exact ⟨hblank, p, hp⟩
      · rw [ht]
        exact hs.tasks
    · refine ⟨hcoherent, hcache, loadsFit_set hstep hs (by rw [ht]) ?_, ?_⟩
      · rw [ht]
        exact ⟨hblank, .spawned, by simp [hs.coherent.started_eq]⟩
      · rw [ht]
        intro task hmem
        rcases List.mem_append.1 hmem with hmem | hmem
        · exact hs.tasks task hmem
        · obtain rfl := List.mem_singleton.1 hmem
          exact ⟨hblank, nofun⟩
  | @receive c n key key' o hc hn =>
    refine ⟨hcoherent, hs.cache, loadsFit_set hstep hs rfl ?_, hs.tasks⟩
    obtain ⟨-, p, hp⟩ := hs.loads _ (List.mem_of_getElem? hc)
    obtain ⟨rfl, rfl⟩ := Flight.Protocol.State.task_unique hp hn
    intro v hv
    cases o with
    | value w =>
      obtain rfl := Except.ok.inj hv
      exact hvalue hn w rfl
    | failure e | crash reason => cases hv
  | abandon hc hp => exact ⟨hcoherent, hs.cache, loadsFit_set hstep hs rfl trivial, hs.tasks⟩
  | call hn => exact ⟨hcoherent, hs.cache, hloads rfl, tasksFit_set hs hn rfl nofun⟩
  | finish hn o =>
    refine ⟨hcoherent, hs.cache, hloads rfl, tasksFit_set hs hn rfl ?_⟩
    intro v hv
    obtain rfl := Option.some.inj hv
    exact hpage _ v _ _ rfl hn
  | @store n key v hn =>
    have hv : v = page key := hvalue hn v rfl
    have hblank := (hs.tasks _ (List.mem_of_getElem? hn)).notBlank
    refine ⟨hcoherent, hs.cache.set hblank hv, hloads rfl, tasksFit_set hs hn rfl ?_⟩
    rintro w ⟨⟩
    exact hv
  | unregister hn hp =>
    refine ⟨hcoherent, hs.cache, hloads rfl, tasksFit_set hs hn rfl ?_⟩
    rintro w ⟨⟩
    exact hvalue hn w (Flight.Protocol.Phase.outcome_of_settled hp)
  | publish hn =>
    refine ⟨hcoherent, hs.cache, hloads rfl, tasksFit_set hs hn rfl ?_⟩
    rintro w ⟨⟩
    exact hvalue hn w rfl

end Traffic

/-! All of a site -/

@[simp] theorem cache_report (s : Site) (rs : List Report) : (s.report rs).cache = s.cache := rfl

@[simp] theorem flights_report (s : Site) (rs : List Report) : (s.report rs).flights = s.flights :=
  rfl

@[simp] theorem cache_onCache (s : Site) (op : Cache.Operation String) :
    (s.onCache op).2.cache = (s.cache.perform op).2.1 := rfl

@[simp] theorem flights_onCache (s : Site) (op : Cache.Operation String) :
    (s.onCache op).2.flights = s.flights := rfl

/-- A lookup replies with what the cache holds. -/
theorem onCache_get (s : Site) (key : String) :
    s.onCache (.get key) = (.value (s.cache.peek key), (s.onCache (.get key)).2) :=
  Prod.ext (congrArg Cache.Reply.value Cache.fst_get) rfl

theorem notBlank_of_usableKey {o : CacheOptions} {key : String}
    (h : o.usableKey? = some key) : Text.isBlankText key = false := by
  unfold CacheOptions.usableKey? at h
  split at h
  · have hkept := (Option.filter_eq_some_iff.1 h).2
    simpa using hkept
  · cases h

namespace Traffic

variable {page : String → String} {t u : Traffic} {key : String}

/-- Where the first lookup of a document leads. -/
theorem looked_cases (t : Traffic) (c : Nat) (options : CacheOptions) :
    (options.usableKey? = none ∧ t.looked c options = t.setVisit c options .missed) ∨
    ∃ key, options.usableKey? = some key ∧
      ((∃ p, t.site.cache.peek key = some p ∧ t.looked c options =
          { t with site := (t.site.onCache (.get key)).2 }.setVisit c options (.delivered p)) ∨
        (t.site.cache.peek key = none ∧ t.looked c options =
          { t with site := (t.site.onCache (.get key)).2 }.setVisit c options .missed)) := by
  unfold looked
  cases hkey : options.usableKey? with
  | none => exact .inl ⟨rfl, rfl⟩
  | some key =>
    refine .inr ⟨key, rfl, ?_⟩
    dsimp only
    rw [onCache_get t.site key]
    cases t.site.cache.peek key with
    | none => exact .inr ⟨rfl, rfl⟩
    | some p => exact .inl ⟨p, rfl, rfl⟩

/-- What the rendering of a document with a usable key has come to fits the pages. -/
def VisitFits (page : String → String) (key : String) : Progress → Prop
  | .arrived | .missed => True
  | .rendered p | .delivered p => p = page key

/-- Everything at a site fits the pages. -/
structure Transparent (page : String → String) (t : Traffic) : Prop where
  flight : Fits page t.flight
  visits : ∀ visit ∈ t.visits, ∀ key, visit.options.usableKey? = some key →
    VisitFits page key visit.progress

theorem Transparent.withSite (h : Transparent page t) (site : Site)
    (hcache : CacheFits page site.cache) (hflights : site.flights = t.site.flights) :
    Transparent page { t with site } := by
  refine ⟨⟨?_, hcache, h.flight.loads, h.flight.tasks⟩, h.visits⟩
  exact Flight.Protocol.coherent_of_eq h.flight.coherent hflights rfl

theorem Transparent.setVisit (h : Transparent page t) (c : Nat) {options : CacheOptions}
    {progress : Progress}
    (hfits : ∀ key, options.usableKey? = some key → VisitFits page key progress) :
    Transparent page (t.setVisit c options progress) := by
  refine ⟨h.flight, fun visit hvisit => ?_⟩
  rcases List.mem_or_eq_of_mem_set hvisit with hvisit | rfl
  · exact h.visits visit hvisit
  · exact hfits

theorem Transparent.visitFits (h : Transparent page t) {c : Nat} {options : CacheOptions}
    {progress : Progress} (hc : t.visits[c]? = some ⟨options, progress⟩)
    (hkey : options.usableKey? = some key) : VisitFits page key progress :=
  h.visits _ (List.mem_of_getElem? hc) key hkey

theorem Transparent.looked (h : Transparent page t) (c : Nat) (options : CacheOptions) :
    Transparent page (t.looked c options) := by
  rcases t.looked_cases c options with ⟨-, heq⟩ | ⟨key, hkey, ⟨p, hp, heq⟩ | ⟨-, heq⟩⟩ <;>
    rw [heq]
  · exact h.setVisit c fun _ _ => trivial
  · have hgot := h.withSite (t.site.onCache (.get key)).2 h.flight.cache.get rfl
    refine hgot.setVisit c fun key' hkey' => ?_
    obtain rfl := Option.some.inj (hkey.symm.trans hkey')
    exact (h.flight.cache key p (Cache.holds_of_peek hp)).1
  · have hgot := h.withSite (t.site.onCache (.get key)).2 h.flight.cache.get rfl
    exact hgot.setVisit c fun _ _ => trivial

theorem Transparent.kept (h : Transparent page t) {c : Nat} {options : CacheOptions} {p : String}
    (hc : t.visits[c]? = some ⟨options, .rendered p⟩) : Transparent page (t.kept c options p) := by
  have hfits : ∀ key, options.usableKey? = some key → VisitFits page key (.delivered p) := by
    intro key hkey
    have hrendered : VisitFits page key (.rendered p) := h.visitFits hc hkey
    exact hrendered
  unfold Traffic.kept
  split
  · exact h.setVisit c hfits
  · next key hkey =>
    have hset : CacheFits page (t.site.onCache (.set key p)).2.cache :=
      h.flight.cache.set (notBlank_of_usableKey hkey) (hfits key hkey)
    exact (h.withSite _ hset rfl).setVisit c hfits

theorem Transparent.requested (h : Transparent page t) (key : String) :
    Transparent page (t.requested key) := by
  unfold Traffic.requested
  split
  · refine ⟨⟨Flight.Protocol.coherent_of_eq h.flight.coherent rfl rfl, h.flight.cache,
      fun l hl => ?_, h.flight.tasks⟩, h.visits⟩
    rcases List.mem_append.1 hl with hl | hl
    · exact h.flight.loads l hl
    · obtain rfl := List.mem_singleton.1 hl
      exact nofun
  · next hblank =>
    refine ⟨⟨Flight.Protocol.coherent_of_eq h.flight.coherent rfl rfl, h.flight.cache,
      fun l hl => ?_, h.flight.tasks⟩, h.visits⟩
    rcases List.mem_append.1 hl with hl | hl
    · exact h.flight.loads l hl
    · obtain rfl := List.mem_singleton.1 hl
      exact Bool.eq_false_iff.2 hblank

theorem Transparent.step {a : Act} (h : Step t a u) (ht : Transparent page t)
    (hpage : ∀ key p, Performed ⟨t, a, u⟩ key p → p = page key) : Transparent page u := by
  cases h with
  | bring options =>
    refine ⟨ht.flight, fun visit hvisit => ?_⟩
    rcases List.mem_append.1 hvisit with hvisit | hvisit
    · exact ht.visits visit hvisit
    · obtain rfl := List.mem_singleton.1 hvisit
      exact fun _ _ => trivial
  | look hc => exact ht.looked _ _
  | @render c options hc p =>
    refine ht.setVisit c fun key hkey => ?_
    exact hpage key p (.inl ⟨c, options, rfl, hc, hkey⟩)
  | keep hc => exact ht.kept hc
  | request key => exact ht.requested key
  | @flight a u ha h =>
    have hu : Fits page u := by
      refine fits_step h ha ht.flight ?_
      rintro n v key p rfl hn
      exact hpage key v (.inr ⟨n, p, rfl, hn⟩)
    exact ⟨⟨Flight.Protocol.coherent_of_eq hu.coherent rfl rfl, hu.cache, hu.loads, hu.tasks⟩,
      ht.visits⟩
  | client hop =>
    exact ht.withSite _ (fun k v hv => ht.flight.cache k v (Cache.holds_of_perform hop hv)) rfl
  | reset =>
    refine ht.withSite _ ?_ rfl
    rintro k v ⟨⟩
  | work hcache hflights => exact ht.withSite _ (hcache ▸ ht.flight.cache) hflights

theorem Transparent.run {ts : List Transition} (h : Run t ts u) (ht : Transparent page t)
    (hpage : ∀ τ ∈ ts, ∀ key p, Performed τ key p → p = page key) : Transparent page u := by
  induction h with
  | start => exact ht
  | step _ hs ih =>
    have hrun := ih fun τ hτ => hpage τ (List.mem_append_left _ hτ)
    exact hrun.step hs (hpage _ (List.mem_append_right _ (List.mem_singleton_self _)))

/-- A new site with nothing going on. -/
def new (settings : Settings) (sink : Sink) (firstRun : Nat) : Traffic :=
  { site := .ofSettings settings sink firstRun }

theorem transparent_new (page : String → String) (settings : Settings) (sink : Sink)
    (firstRun : Nat) : Transparent page (new settings sink firstRun) := by
  have hcoherent : Flight.Protocol.Coherent (.ofCapacity settings.cacheCapacity) :=
    @Flight.Protocol.coherent_ofCapacity String RenderFault settings.cacheCapacity
  refine ⟨⟨Flight.Protocol.coherent_of_eq hcoherent rfl rfl, ?_, nofun, nofun⟩, nofun⟩
  rintro key v ⟨⟩

/-- The states that a run goes through, the last one last. -/
def states (ts : List Transition) (t : Traffic) : List Traffic := ts.map Transition.source ++ [t]

/-- Each state that a run goes through ends a run of its own, with no other steps. -/
theorem Run.exists_of_mem_states {ts : List Transition} {v : Traffic} (h : Run t ts u)
    (hv : v ∈ states ts u) : ∃ rs, Run t rs v ∧ rs ⊆ ts := by
  induction h with
  | start =>
    obtain rfl := List.mem_singleton.1 hv
    exact ⟨[], .start, List.Subset.refl _⟩
  | @step ts w x a hrun hs ih =>
    simp only [states, List.map_append, List.map_cons, List.map_nil, List.mem_append,
      List.mem_singleton] at hv
    rcases hv with hv | rfl
    · obtain ⟨rs, hrs, hsub⟩ := ih (List.mem_append.2 (hv.imp id List.mem_singleton.2))
      exact ⟨rs, hrs, List.subset_append_of_subset_left _ hsub⟩
    · exact ⟨_, hrun.step hs, List.Subset.refl _⟩

end Traffic

end Folio.Site
