import Folio.Proofs.Cache.Watched
import Folio.Proofs.Pool.Hidden
import Folio.Proofs.Site.Sealed
import Folio.Proofs.Site.Traffic

/-! What a warm-up reports. All routes take their first steps before any builder runs, so each finds
the cache as it was and a registry to which only other keys were added; what it reports is what a
single request for its key would get, and of the routes with one key only the first can have its
builder run. -/
namespace Folio.Site

/-- A state that a site with these settings can be in: its pools, its cache and its registry of
computations were changed by operations of their own only. -/
structure Under (settings : Settings) (s : Site) : Prop where
  settings_eq : s.settings = settings
  nodes : Pool.Kept Pool.nodeNames s.nodes
  contexts : Pool.Kept Pool.contextNames s.contexts
  store : s.cache.store.Sound
  numbered : ∀ e ∈ s.flights.active, e.2 < s.flights.started

/-- A builder that comes to the same in whatever state its site is. -/
structure Steady (settings : Settings) (key : String) (builder : Builder) : Prop where
  outcome_eq : ∀ s t, Under settings s → Under settings t →
    (s.compute key builder).1 = (t.compute key builder).1
  under : ∀ s, Under settings s → Under settings (builder s).2

variable {settings : Settings} {s t : Site} {key : String} {builder : Builder}

/-! States of sites -/

theorem under_ofSettings (settings : Settings) (sink : Sink) (firstRun : Nat) :
    Under settings (.ofSettings settings sink firstRun) where
  settings_eq := rfl
  nodes := Pool.kept_empty _ _
  contexts := Pool.kept_empty _ _
  store := ⟨List.nodup_nil, Nat.zero_le _⟩
  numbered := List.forall_mem_nil _

namespace Under

theorem report (h : Under settings s) (rs : List Report) : Under settings (s.report rs) :=
  ⟨h.settings_eq, h.nodes, h.contexts, h.store, h.numbered⟩

theorem onCache (h : Under settings s) (op : Cache.Operation String) :
    Under settings (s.onCache op).2 :=
  ⟨h.settings_eq, h.nodes, h.contexts, Cache.sound_perform h.store op, h.numbered⟩

theorem reset (h : Under settings s) : Under settings s.reset where
  settings_eq := h.settings_eq
  nodes := h.nodes.clear
  contexts := h.contexts.clear
  store := Cache.sound_perform h.store .reset
  numbered := h.numbered

theorem newDocument (h : Under settings s) (options : CacheOptions) :
    Under settings (s.newDocument options).2 := by
  unfold Site.newDocument Site.advise
  dsimp only
  split
  · split
    · exact ⟨h.settings_eq, h.nodes, h.contexts, h.store, h.numbered⟩
    · exact ⟨h.settings_eq, h.nodes, h.contexts, h.store, h.numbered⟩
  · exact ⟨h.settings_eq, h.nodes, h.contexts, h.store, h.numbered⟩

theorem start (h : Under settings s) (key : String) :
    Under settings { s with flights := (s.flights.start key).2 } := by
  refine ⟨h.settings_eq, h.nodes, h.contexts, h.store, fun e he => ?_⟩
  have hkept : ∀ e ∈ s.flights.active, e.2 < s.flights.started + 1 :=
    fun e he => Nat.lt_succ_of_lt (h.numbered e he)
  exact Entries.forall_mem_put (P := fun e => e.2 < s.flights.started + 1) hkept
    (Nat.lt_succ_self _) e he

theorem renderUncached (h : Under settings s) (d : Document) :
    Under settings (s.renderUncached d).2.2 where
  settings_eq := h.settings_eq
  nodes := (h.nodes.recycleAll _).1
  contexts := h.contexts.acquire.release _
  store := h.store
  numbered := h.numbered

theorem drop (h : Under settings s) (d : Document) : Under settings (s.drop d) where
  settings_eq := h.settings_eq
  nodes := (h.nodes.recycleAll _).1
  contexts := h.contexts
  store := h.store
  numbered := h.numbered

theorem compute (h : Under settings (builder s).2) (key : String) :
    Under settings (s.compute key builder).2 := by
  unfold Site.compute
  generalize builder s = b at h
  obtain ⟨built, t⟩ := b
  cases built with
  | document d => exact (h.renderUncached d).drop _
  | failure message => exact h.report _
  | crash message => exact h

theorem complete (h : Under settings s) (key : String)
    (o : Flight.Outcome String RenderFault) :
    Under settings { s with
      cache := (Flight.complete key o s.cache s.flights).1
      flights := (Flight.complete key o s.cache s.flights).2.1 } := by
  have hnumbered : ∀ e ∈ (s.flights.finish key).active, e.2 < s.flights.started :=
    fun e he => h.numbered e (Entries.erase_subset key _ he)
  cases o with
  | value page =>
    exact ⟨h.settings_eq, h.nodes, h.contexts, Cache.sound_perform h.store (.set key page),
      hnumbered⟩
  | failure e | crash reason =>
    exact ⟨h.settings_eq, h.nodes, h.contexts, h.store, hnumbered⟩

end Under

/-- A document has one page under some settings, in whatever state their site is. -/
theorem Under.renderPage_eq (hs : Under settings s) (ht : Under settings t) (d : Document) :
    (s.renderPage d.head d.body).1 = (t.renderPage d.head d.body).1 := by
  rw [renderPage_eq_wrap hs.contexts.reached, renderPage_eq_wrap ht.contexts.reached, parts, parts,
    hs.settings_eq, ht.settings_eq]

/-! Computations one after another -/

variable {p : Pending} {ps : List Pending}

theorem Steady.finish_eq (h : Steady settings p.key p.builder) (hs : Under settings s)
    (ht : Under settings t) : (s.finish p).1 = (t.finish p).1 :=
  congrArg (published p.key) (h.outcome_eq s t hs ht)

theorem Steady.under_finish (h : Steady settings p.key p.builder) (hs : Under settings s) :
    Under settings (s.finish p).2 :=
  (((h.under s hs).compute p.key).complete p.key _).report _

/-- Each computation comes to what it would come to at once. -/
theorem finishAll_steady (hps : ∀ p ∈ ps, Steady settings p.key p.builder)
    (hs : Under settings s) (ht : Under settings t) :
    (finishAll ps t).1 = ps.map (fun p => (p.number, (s.finish p).1)) ∧
      Under settings (finishAll ps t).2 := by
  induction ps generalizing t with
  | nil => exact ⟨rfl, ht⟩
  | cons p ps ih =>
    rw [List.forall_mem_cons] at hps
    obtain ⟨hresults, hunder⟩ := ih hps.2 (hps.1.under_finish ht)
    refine ⟨?_, hunder⟩
    rw [List.map_cons, ← hresults, hps.1.finish_eq hs ht]
    rfl

theorem finishTurns_steady (routes : List (String × Load))
    (hps : ∀ p ∈ ps, Steady settings p.key p.builder)
    (hs : Under settings s) (ht : Under settings t) :
    (finishTurns routes ps t).1 = ps.map (fun p => (p.number, (s.finish p).1)) ∧
      Under settings (finishTurns routes ps t).2 := by
  induction ps using turn_induction generalizing t with
  | nil =>
    rw [finishTurns_nil]
    exact ⟨rfl, ht⟩
  | turn ps hsome ih =>
    obtain ⟨hturn, hunder⟩ := finishAll_steady
      (fun p hp => hps p (List.mem_of_mem_take (i := turnLength) hp)) hs ht
    obtain ⟨hrest, hunder⟩ := ih (fun p hp => hps p (List.mem_of_mem_drop hp))
      (hunder.report (lateWarnings routes (finishAll (ps.take turnLength) t).1))
    rw [finishTurns, if_neg hsome]
    refine ⟨?_, hunder⟩
    dsimp only
    rw [hrest, hturn, ← List.map_append, List.take_append_drop]

/-! The first steps of a request -/

theorem beginLoad_of_blank (hkey : Text.isBlankText key = true) :
    s.beginLoad key builder = (.refused Traffic.blankKey, [], s) := by
  rw [beginLoad, if_pos hkey]
  rfl

theorem beginLoad_of_hit (hkey : Text.isBlankText key = false) {page : String}
    (hpage : s.cache.peek key = some page) :
    s.beginLoad key builder = (.answered page, [], (s.onCache (.get key)).2) := by
  rw [beginLoad, hkey, if_neg Bool.false_ne_true, onCache_get s key, hpage]

/-- What the critical section of a request that found nothing is about. -/
theorem beginLoad_of_miss (hs : Under settings s) (hkey : Text.isBlankText key = false)
    (hmiss : s.cache.peek key = none) :
    s.beginLoad key builder =
      match s.flights.find? key with
      | some n => (.waiting n, [], (s.onCache (.get key)).2.report
          [.tick Metric.flightJoined, .log .debug "joined in-flight computation" [("key", key)]])
      | none => (.waiting s.flights.started, [⟨s.flights.started, key, builder⟩],
          { (s.onCache (.get key)).2 with flights := (s.flights.start key).2 }.report
            [.log .debug "started computation" [("key", key)]]) := by
  have hpeek : (s.onCache (.get key)).2.cache.peek key = none :=
    (Cache.peek_get hs.store.nodup_keys key key).trans hmiss
  rw [beginLoad, hkey, if_neg Bool.false_ne_true, onCache_get s key, hmiss]
  dsimp only
  rw [Flight.enter, hpeek, flights_onCache]
  cases s.flights.find? key with
  | some n => rfl
  | none => rfl

/-- Where a request for a key stands after its first steps, at a site where others took theirs before
and started computations. -/
inductive Enters (s : Site) (ps : List Pending) (key : String) : Load → Prop
  | refused (hkey : Text.isBlankText key = true) : Enters s ps key (.refused Traffic.blankKey)
  | answered (hkey : Text.isBlankText key = false) {page : String}
    (hpage : s.cache.peek key = some page) : Enters s ps key (.answered page)
  | joined (hkey : Text.isBlankText key = false) (hmiss : s.cache.peek key = none) {n : Nat}
    (hn : s.flights.find? key = some n) : Enters s ps key (.waiting n)
  | awaits (hkey : Text.isBlankText key = false) (hmiss : s.cache.peek key = none)
    (hfree : s.flights.find? key = none) {p : Pending} (hp : p ∈ ps) (hpkey : p.key = key) :
    Enters s ps key (.waiting p.number)

theorem Enters.mono {qs : List Pending} {load : Load} (h : Enters s ps key load)
    (hsub : ps ⊆ qs) : Enters s qs key load := by
  cases h with
  | refused hkey => exact .refused hkey
  | answered hkey hpage => exact .answered hkey hpage
  | joined hkey hmiss hn => exact .joined hkey hmiss hn
  | awaits hkey hmiss hfree hp hpkey => exact .awaits hkey hmiss hfree (hsub hp) hpkey

/-- The site `t` is `s` after the first steps of requests, which stand there now and started these
computations. -/
structure Begun (s : Site) (items : List (String × Builder)) (loads : List Load)
    (ps : List Pending) (t : Site) : Prop where
  under : Under s.settings t
  peek : ∀ key, t.cache.peek key = s.cache.peek key
  find? : ∀ key, t.flights.find? key =
    (s.flights.find? key).or (Entries.get? key (ps.map fun p => (p.key, p.number)))
  started : t.flights.started = s.flights.started + ps.length
  numbers : ps.map Pending.number = List.range' s.flights.started ps.length
  nodup_keys : (ps.map Pending.key).Nodup
  first : ∀ p ∈ ps, Text.isBlankText p.key = false ∧ s.cache.peek p.key = none ∧
    s.flights.find? p.key = none ∧ Entries.get? p.key items = some p.builder
  loads : List.Forall₂ (fun item load => Enters s ps item.1 load) items loads

namespace Begun

variable {items : List (String × Builder)} {loads : List Load}

theorem nil (hs : Under settings s) : Begun s [] [] [] s where
  under := hs.settings_eq ▸ hs
  peek _ := rfl
  find? _ := (Option.or_none).symm
  started := rfl
  numbers := rfl
  nodup_keys := List.nodup_nil
  first := List.forall_mem_nil _
  loads := .nil

/-- Once a key that needs a computation was asked for, there is one. -/
theorem exists_pending (h : Begun s items loads ps t) (hmem : key ∈ items.map Prod.fst)
    (hkey : Text.isBlankText key = false) (hmiss : s.cache.peek key = none)
    (hfree : s.flights.find? key = none) : ∃ p ∈ ps, p.key = key := by
  obtain ⟨item, hitem, rfl⟩ := List.mem_map.1 hmem
  obtain ⟨i, hi, rfl⟩ := List.getElem_of_mem hitem
  have hload := (List.forall₂_iff_get.1 h.loads).2 i hi (h.loads.length_eq ▸ hi)
  revert hload
  generalize loads.get _ = load
  intro hload
  cases hload with
  | refused hblank => exact (Bool.false_ne_true (hkey.symm.trans hblank)).elim
  | answered _ hpage => exact (Option.some_ne_none _ (hpage.symm.trans hmiss)).elim
  | joined _ _ hn => exact (Option.some_ne_none _ (hn.symm.trans hfree)).elim
  | awaits _ _ _ hp hpkey => exact ⟨_, hp, hpkey⟩

/-- A request that starts nothing. -/
theorem add {u : Site} {load : Load} (h : Begun s items loads ps t) (builder : Builder)
    (hunder : Under s.settings u) (hpeek : ∀ k, u.cache.peek k = t.cache.peek k)
    (hflights : u.flights = t.flights) (hload : Enters s ps key load) :
    Begun s (items ++ [(key, builder)]) (loads ++ [load]) ps u where
  under := hunder
  peek k := (hpeek k).trans (h.peek k)
  find? := hflights ▸ h.find?
  started := hflights ▸ h.started
  numbers := h.numbers
  nodup_keys := h.nodup_keys
  first p hp := by
    obtain ⟨hkey, hmiss, hfree, hget⟩ := h.first p hp
    exact ⟨hkey, hmiss, hfree, by rw [Entries.get?_append, hget, Option.some_or]⟩
  loads := List.rel_append h.loads (.cons hload .nil)

/-- A request that starts the computation of its key. -/
theorem start {u : Site} (h : Begun s items loads ps t) (builder : Builder)
    (hunder : Under s.settings u) (hpeek : ∀ k, u.cache.peek k = t.cache.peek k)
    (hflights : u.flights = (t.flights.start key).2) (hkey : Text.isBlankText key = false)
    (hmiss : t.cache.peek key = none) (hfree : t.flights.find? key = none) :
    Begun s (items ++ [(key, builder)]) (loads ++ [.waiting t.flights.started])
      (ps ++ [⟨t.flights.started, key, builder⟩]) u := by
  rw [h.peek] at hmiss
  rw [h.find?, Option.or_eq_none_iff] at hfree
  obtain ⟨hfree, hnone⟩ := hfree
  have hnew : key ∉ ps.map Pending.key := by
    simpa using Entries.get?_eq_none_iff.1 hnone
  have hunasked : Entries.get? key items = none := by
    refine Entries.get?_eq_none_iff.2 fun hmem => hnew ?_
    obtain ⟨p, hp, rfl⟩ := h.exists_pending hmem hkey hmiss hfree
    exact List.mem_map_of_mem hp
  refine ⟨hunder, fun k => (hpeek k).trans (h.peek k), fun k => ?_, ?_, ?_, ?_, fun p hp => ?_, ?_⟩
  · rw [hflights, Flight.Registry.start, Flight.Registry.find?, List.map_append,
      Entries.get?_append, ← Option.or_assoc, ← h.find?]
    by_cases hk : k = key
    · subst hk
      rw [Entries.get?_put_self, h.find?, hfree, hnone]
      simp [Entries.get?]
    · rw [Entries.get?_put_of_ne hk, ← Flight.Registry.find?]
      simp [Entries.get?, Ne.symm hk]
  · rw [hflights, Flight.Registry.start, h.started, List.length_append, Nat.add_assoc]
    rfl
  · rw [List.map_append, h.numbers, List.length_append, List.length_singleton,
      List.range'_concat, h.started, Nat.one_mul]
    rfl
  · rw [List.map_append]
    refine List.nodup_append.2 ⟨h.nodup_keys, List.nodup_singleton _, fun k hk k' hk' heq => ?_⟩
    obtain rfl : k = key := heq.trans (List.mem_singleton.1 hk')
    exact hnew hk
  · rcases List.mem_append.1 hp with hp | hp
    · obtain ⟨hkey, hmiss, hfree, hget⟩ := h.first p hp
      exact ⟨hkey, hmiss, hfree, by rw [Entries.get?_append, hget, Option.some_or]⟩
    · obtain rfl := List.mem_singleton.1 hp
      refine ⟨hkey, hmiss, hfree, ?_⟩
      rw [Entries.get?_append, hunasked, Option.none_or, Entries.get?, if_pos rfl]
  · refine List.rel_append (h.loads.imp fun _ _ hload => ?_) (.cons ?_ .nil)
    · exact hload.mono (List.subset_append_left _ _)
    · exact .awaits hkey hmiss hfree (List.mem_append_right _ (List.mem_singleton_self _)) rfl

theorem step (h : Begun s items loads ps t) (key : String) (builder : Builder) :
    Begun s (items ++ [(key, builder)]) (loads ++ [(t.beginLoad key builder).1])
      (ps ++ (t.beginLoad key builder).2.1) (t.beginLoad key builder).2.2 := by
  have hlooked : ∀ k, (t.onCache (.get key)).2.cache.peek k = t.cache.peek k :=
    Cache.peek_get h.under.store.nodup_keys key
  cases hkey : Text.isBlankText key with
  | true =>
    rw [beginLoad_of_blank hkey, List.append_nil]
    exact h.add builder h.under (fun _ => rfl) rfl (.refused hkey)
  | false =>
    cases hpage : t.cache.peek key with
    | some page =>
      rw [beginLoad_of_hit hkey hpage, List.append_nil]
      exact h.add builder (h.under.onCache (.get key)) hlooked rfl
        (.answered hkey ((h.peek key).symm.trans hpage))
    | none =>
      have hmiss := (h.peek key).symm.trans hpage
      rw [beginLoad_of_miss h.under hkey hpage]
      cases hfind : t.flights.find? key with
      | none =>
        exact h.start builder (((h.under.onCache _).start key).report _) hlooked rfl hkey hpage
          hfind
      | some n =>
        dsimp only
        rw [List.append_nil]
        refine h.add builder ((h.under.onCache _).report _) hlooked rfl ?_
        rw [h.find?, Option.or_eq_some_iff] at hfind
        rcases hfind with hn | ⟨hfree, hn⟩
        · exact .joined hkey hmiss hn
        · obtain ⟨p, hp, heq⟩ := List.mem_map.1 (Entries.mem_of_get? hn)
          obtain ⟨hpkey, rfl⟩ := Prod.mk.inj heq
          exact .awaits hkey hmiss hfree hp hpkey

/-- Each computation runs the builder of a request. -/
theorem mem_items (h : Begun s items loads ps t) {p : Pending} (hp : p ∈ ps) :
    (p.key, p.builder) ∈ items := Entries.mem_of_get? (h.first p hp).2.2.2

theorem steady (h : Begun s items loads ps t) (hitems : ∀ item ∈ items, Steady settings item.1 item.2) :
    ∀ p ∈ ps, Steady settings p.key p.builder := fun _ hp => hitems _ (h.mem_items hp)

theorem report (h : Begun s items loads ps t) (rs : List Report) :
    Begun s items loads ps (t.report rs) :=
  ⟨h.under.report rs, h.peek, h.find?, h.started, h.numbers, h.nodup_keys, h.first, h.loads⟩

theorem beginAll (h : Begun s items loads ps t) (onLoad : String → Load → List Report)
    (more : List (String × Builder)) :
    Begun s (items ++ more) (loads ++ (t.beginAll onLoad more).1)
      (ps ++ (t.beginAll onLoad more).2.1) (t.beginAll onLoad more).2.2 := by
  induction more generalizing items loads ps t with
  | nil => simpa [Site.beginAll] using h
  | cons item more ih =>
    obtain ⟨key, builder⟩ := item
    simpa [Site.beginAll, List.append_assoc] using ih ((h.step key builder).report _)

end Begun

/-! What requests get -/

/-- What a single request gets, if the computations that others started before come to `others`. -/
def outcomeAmong (others : Results) (s : Site) (key : String) (builder : Builder) :
    Except RenderFault String :=
  let (load, pending, t) := s.beginLoad key builder
  outcomeOf (others ++ (finishAll pending t).1) load

/-- The routes of a warm-up after their first steps, and the builds that these started. -/
def warmupLoads (s : Site) (routes : List (String × Builder)) : List (String × Load) :=
  (routes.map Prod.fst).zip (s.beginAll warnRefused routes).1

def warmupBuilds (s : Site) (routes : List (String × Builder)) : List Pending :=
  (s.beginAll warnRefused routes).2.1

/-- What the builds of a warm-up come to, in the order in which they run. -/
def warmupResults (s : Site) (routes : List (String × Builder)) : Results :=
  (finishTurns (s.warmupLoads routes) (s.warmupBuilds routes)
    (s.beginAll warnRefused routes).2.2).1

/-- What a warm-up reports, if the computations that others started before come to `others`. -/
def reportsAmong (others : Results) (s : Site) (routes : List (String × Builder)) :
    List WarmupReport :=
  (s.warmupLoads routes).map fun route =>
    warmupReport route.1 (outcomeOf (others ++ s.warmupResults routes) route.2)

theorem begun_warmup (hs : Under settings s) (routes : List (String × Builder)) :
    Begun s routes (s.beginAll warnRefused routes).1 (s.warmupBuilds routes)
      (s.beginAll warnRefused routes).2.2 :=
  (Begun.nil hs).beginAll warnRefused routes

/-- With no computation of others under way these are the request and the warm-up themselves. -/
theorem outcomeAmong_nil (s : Site) (key : String) (builder : Builder) :
    outcomeAmong [] s key builder = (s.request key builder).1 := rfl

theorem reportsAmong_nil (s : Site) (routes : List (String × Builder)) :
    reportsAmong [] s routes = (s.warmup routes).1 := rfl

variable {others : Results} {routes : List (String × Builder)} {loads : List Load}

theorem get?_others (hothers : ∀ r ∈ others, r.1 < s.flights.started) {n : Nat}
    (hn : s.flights.started ≤ n) (results : Results) :
    Entries.get? n (others ++ results) = Entries.get? n results := by
  have hnone : Entries.get? n others = none := by
    refine Entries.get?_eq_none_iff.2 fun hmem => ?_
    obtain ⟨r, hr, rfl⟩ := List.mem_map.1 hmem
    exact Nat.not_lt.2 hn (hothers r hr)
  rw [Entries.get?_append, hnone, Option.none_or]

/-- Where a route stands decides what it gets: what its key's first builder gets alone. -/
theorem Begun.outcome_eq (h : Begun s routes loads ps t) (hs : Under settings s)
    (hroutes : ∀ r ∈ routes, Steady settings r.1 r.2)
    (hothers : ∀ r ∈ others, r.1 < s.flights.started) {load : Load} (hload : Enters s ps key load)
    (hget : Entries.get? key routes = some builder) :
    outcomeOf (others ++ ps.map fun p => (p.number, (s.finish p).1)) load =
      outcomeAmong others s key builder := by
  have hnumbers : (ps.map fun p => (p.number, (s.finish p).1)).map Prod.fst =
      List.range' s.flights.started ps.length := by
    rw [List.map_map, ← h.numbers]
    rfl
  unfold outcomeAmong
  cases hload with
  | refused hkey =>
    rw [beginLoad_of_blank hkey]
    rfl
  | answered hkey hpage =>
    rw [beginLoad_of_hit hkey hpage]
    rfl
  | @joined hkey hmiss n hn =>
    have hbefore : n < s.flights.started := hs.numbered _ (Entries.mem_of_get? hn)
    have hnone : Entries.get? n (ps.map fun p => (p.number, (s.finish p).1)) = none := by
      refine Entries.get?_eq_none_iff.2 fun hmem => ?_
      rw [hnumbers, List.mem_range'_1] at hmem
      exact Nat.not_lt.2 hmem.1 hbefore
    rw [beginLoad_of_miss hs hkey hmiss, hn]
    dsimp only [outcomeOf, finishAll]
    rw [Entries.get?_append, hnone, Option.or_none, List.append_nil]
  | @awaits hkey hmiss hfree p hp hpkey =>
    obtain rfl := hpkey
    obtain rfl : p.builder = builder := Option.some.inj ((h.first p hp).2.2.2.symm.trans hget)
    have hmem : (p.number, (s.finish p).1) ∈ ps.map fun p => (p.number, (s.finish p).1) :=
      List.mem_map_of_mem hp
    have hafter : s.flights.started ≤ p.number := by
      have hrange : p.number ∈ List.range' s.flights.started ps.length :=
        h.numbers ▸ List.mem_map_of_mem hp
      exact (List.mem_range'_1.1 hrange).1
    have hresult := Entries.get?_of_mem (hnumbers ▸ List.nodup_range') hmem
    have hsteady : Steady settings p.key p.builder := hroutes _ (Entries.mem_of_get? hget)
    rw [beginLoad_of_miss hs hkey hmiss, hfree]
    dsimp only [outcomeOf, finishAll]
    rw [get?_others hothers hafter, hresult, get?_others hothers (Nat.le_refl _), Entries.get?,
      if_pos rfl]
    exact hsteady.finish_eq hs (((hs.onCache _).start p.key).report _)

theorem Begun.enters (h : Begun s routes loads ps t) {key : String} {load : Load}
    (hmem : (key, load) ∈ (routes.map Prod.fst).zip loads) :
    Enters s ps key load ∧ ∃ builder, Entries.get? key routes = some builder := by
  have hloads : List.Forall₂ (Enters s ps) (routes.map Prod.fst) loads :=
    List.forall₂_map_left_iff.2 h.loads
  refine ⟨List.forall₂_zip hloads hmem, Option.ne_none_iff_exists'.1 fun hnone => ?_⟩
  exact Entries.get?_eq_none_iff.1 hnone (List.of_mem_zip hmem).1

theorem key_warmupReport (key : String) (outcome : Except RenderFault String) :
    (warmupReport key outcome).key = key := by
  cases outcome <;> rfl

/-- The builds of a warm-up come to what each would come to at once. -/
theorem warmupResults_eq (hs : Under settings s)
    (hroutes : ∀ r ∈ routes, Steady settings r.1 r.2) :
    s.warmupResults routes =
      (s.warmupBuilds routes).map fun p => (p.number, (s.finish p).1) := by
  have hbegun := begun_warmup hs routes
  exact (finishTurns_steady _ (hbegun.steady hroutes) hs (hs.settings_eq ▸ hbegun.under)).1

/-- A report is what the first builder of its key would get alone. -/
theorem report_of_mem_reportsAmong (hs : Under settings s)
    (hroutes : ∀ r ∈ routes, Steady settings r.1 r.2)
    (hothers : ∀ r ∈ others, r.1 < s.flights.started) {r : WarmupReport}
    (hr : r ∈ reportsAmong others s routes) :
    ∃ builder, Entries.get? r.key routes = some builder ∧
      r = warmupReport r.key (outcomeAmong others s r.key builder) := by
  have hbegun := begun_warmup hs routes
  obtain ⟨⟨key, load⟩, hmem, rfl⟩ := List.mem_map.1 hr
  obtain ⟨henters, builder, hget⟩ := hbegun.enters hmem
  have houtcome := hbegun.outcome_eq hs hroutes hothers henters hget
  rw [← warmupResults_eq hs hroutes] at houtcome
  dsimp only
  rw [key_warmupReport, houtcome]
  exact ⟨builder, hget, rfl⟩

/-- Where no computation of others comes to anything, a route gets what a request for its key gets.
-/
theorem report_of_mem_warmup (hs : Under settings s)
    (hroutes : ∀ r ∈ routes, Steady settings r.1 r.2) {r : WarmupReport}
    (hr : r ∈ (s.warmup routes).1) :
    ∃ builder, Entries.get? r.key routes = some builder ∧
      r = warmupReport r.key (s.request r.key builder).1 := by
  rw [← reportsAmong_nil] at hr
  obtain ⟨builder, hget, heq⟩ :=
    report_of_mem_reportsAmong hs hroutes (List.forall_mem_nil _) hr
  rw [outcomeAmong_nil] at heq
  exact ⟨builder, hget, heq⟩

/-- A warm-up leaves the site in a state in which the next can begin. -/
theorem Under.warmup (hs : Under settings s)
    (hroutes : ∀ r ∈ routes, Steady settings r.1 r.2) : Under settings (s.warmup routes).2 := by
  have hbegun := begun_warmup hs routes
  have hsteady := hbegun.steady hroutes
  exact (finishTurns_steady _ hsteady hs (hs.settings_eq ▸ hbegun.under)).2.report _

/-! Builders that do not depend on the state -/

theorem steady_failure (settings : Settings) (key message : String) :
    Steady settings key fun s => (.failure message, s) :=
  ⟨fun _ _ _ _ => rfl, fun _ hs => hs⟩

/-- The builder of a document with some head and body. -/
def builderOf (head : Head) (body : List Node) : Builder := fun s =>
  let (d, s) := s.newDocument {}
  (.document { d with head, body }, s)

theorem steady_builderOf (settings : Settings) (key : String) (head : Head) (body : List Node) :
    Steady settings key (builderOf head body) where
  outcome_eq _ _ hs ht := congrArg Flight.Outcome.value
    ((hs.newDocument {}).renderPage_eq (ht.newDocument {}) ⟨0, body, head, {}⟩)
  under _ hs := hs.newDocument {}

end Folio.Site
