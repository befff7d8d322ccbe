import Folio.Proofs.Cache.Contents
import Folio.Proofs.Telemetry.Counted

/-!
The books of a cache that is used through any number of handles. Its counters agree with what was
done since the last reset, and whatever was stored there is still there, was evicted, was deleted
or was cleared away.
-/
namespace Folio

universe u

namespace Lru

variable {ν : Type u}

/-- A lookup moves an entry at most. -/
theorem size_get (s : Lru ν) (key : String) : (s.get key).2.size = s.size := by
  have hstep := s.step_get key
  generalize s.get key = result at hstep ⊢
  obtain ⟨found, t⟩ := result
  cases hstep with
  | hit hpeek => exact size_touch_of_mem (mem_keys_of_peek hpeek)
  | miss _ => rfl

/-- A store grows by the key that comes in and shrinks by the key that is evicted. -/
theorem size_insert (s : Lru ν) (key : String) (v : ν) :
    (s.insert key v).2.size + (s.insert key v).1.toList.length =
      s.size + if key ∉ s.keys ∧ key ∈ (s.insert key v).2.keys then 1 else 0 := by
  have hstep := s.step_insert key v
  generalize s.insert key v = result at hstep ⊢
  obtain ⟨evicted, t⟩ := result
  cases hstep with
  | ignore _ _ _ => rw [if_neg fun h => h.1 h.2]; rfl
  | store _ _ _ =>
    by_cases hkey : key ∈ s.keys
    · rw [if_neg fun h => h.1 hkey]
      exact size_touch_of_mem hkey
    · rw [if_pos ⟨hkey, mem_keys_touch.2 (.inl rfl)⟩]
      exact size_touch_of_not_mem hkey
  | evict _ _ hkey _ hentries =>
    rw [if_pos ⟨hkey, mem_keys_touch.2 (.inl rfl)⟩]
    exact congrArg (· + 1) (size_touch_rest hkey hentries)

end Lru

namespace Cache

variable {ν : Type u} {c : Cache ν}

/-- What a client asks of a cache: an operation, or to be told something. -/
inductive Call (ν : Type u) where
  | operation (op : Operation ν)
  | size
  | isEmpty
  | capacity
  | keys
  | statistics

inductive Answer (ν : Type u) where
  | reply (r : Reply ν)
  | number (n : Nat)
  | flag (b : Bool)
  | names (keys : List String)
  | counters (s : Statistics)

def call (c : Cache ν) : Call ν → Answer ν × Cache ν × List Report
  | .operation op => let (r, c, rs) := c.perform op; (.reply r, c, rs)
  | .size => (.number c.size, c, [])
  | .isEmpty => (.flag c.isEmpty, c, [])
  | .capacity => (.number c.capacity, c, [])
  | .keys => (.names c.keys, c, [])
  | .statistics => (.counters c.statistics, c, [])

namespace Call

/-- Whether a call looks at the cache and does nothing more. -/
def looks : Call ν → Bool
  | .operation (.peek _) | .operation (.contains _) => true
  | .size | .isEmpty | .capacity | .keys | .statistics => true
  | .operation _ => false

def isReset : Call ν → Bool
  | .operation .reset => true
  | _ => false

end Call

/-- A call that was made, with its answer and the cache before and after it. -/
structure Entry (ν : Type u) where
  before : Cache ν
  call : Call ν
  answer : Answer ν
  after : Cache ν

namespace Entry

variable (e : Entry ν)

def isGet : Bool :=
  match e.call with
  | .operation (.get _) => true
  | _ => false

/-- Whether a value was stored and a key returned that was evicted for it. -/
def evicts : Bool :=
  match e.call, e.answer with
  | .operation (.set _ _), .reply (.evicted (some _)) => true
  | _, _ => false

/-- Whether a value was stored under a key that was not there. -/
def adds : Bool :=
  match e.call with
  | .operation (.set key _) => !e.before.contains key && e.after.contains key
  | _ => false

/-- Whether a key was deleted that was there. -/
def deletes : Bool :=
  match e.call, e.answer with
  | .operation (.delete _), .reply (.flag b) => b
  | _, _ => false

/-- The entries that were cleared away. -/
def cleared : Nat :=
  match e.call with
  | .operation .clear => e.before.size
  | _ => 0

end Entry

section Counters

variable {key : String} {v : ν}

/-- The lookups that a cache has counted. -/
def lookups (c : Cache ν) : Nat := c.hits + c.misses

theorem lookups_get : (c.get key).2.1.lookups = c.lookups + 1 := by
  unfold get lookups
  split <;> dsimp only <;> omega

theorem evictions_get : (c.get key).2.1.evictions = c.evictions := by
  unfold get
  split <;> rfl

theorem size_get : (c.get key).2.1.size = c.size := by
  rw [size, (c.get_eq key).2, Lru.size_get, size]

theorem lookups_set : (c.set key v).2.1.lookups = c.lookups := by
  unfold set
  split <;> rfl

theorem evictions_set :
    (c.set key v).2.1.evictions = c.evictions + (c.set key v).1.toList.length := by
  unfold set
  split <;> rfl

theorem fst_set : (c.set key v).1 = (c.store.insert key v).1 := by
  unfold set
  split
  · next hs => rw [hs]
  · next hs => rw [hs]

theorem contains_iff : c.contains key = true ↔ key ∈ c.store.keys := Lru.isSome_peek_iff

/-- A cache grows by the key that comes in and shrinks by the key that is evicted. -/
theorem size_set (c : Cache ν) (key : String) (v : ν) :
    (c.set key v).2.1.size + (c.set key v).1.toList.length =
      c.size + if !c.contains key && (c.set key v).2.1.contains key then 1 else 0 := by
  have hsize := c.store.size_insert key v
  simp only [← store_set, ← fst_set, ← contains_iff] at hsize
  rw [size, hsize, size]
  simp

theorem fst_delete : (c.delete key).1 = c.contains key := rfl

theorem size_delete :
    (c.delete key).2.size + (if (c.delete key).1 then 1 else 0) = c.size := by
  have hsize : (c.delete key).2.size = _ := c.store.size_remove key
  rw [hsize, fst_delete]
  by_cases hkey : key ∈ c.store.keys
  · have hpos := List.length_pos_of_mem hkey
    rw [← Lru.size_eq_length_keys] at hpos
    rw [if_pos hkey, if_pos (contains_iff.2 hkey), size]
    omega
  · rw [if_neg hkey, if_neg fun h => hkey (contains_iff.1 h), size, Nat.add_zero]

end Counters

/-- What a call does to the counters and to the size is what it counts for. -/
structure Entry.Fair (e : Entry ν) : Prop where
  lookups : e.after.lookups = e.before.lookups + if e.isGet then 1 else 0
  evictions : e.after.evictions = e.before.evictions + if e.evicts then 1 else 0
  size : e.after.size + (if e.evicts then 1 else 0) + (if e.deletes then 1 else 0) + e.cleared =
    e.before.size + if e.adds then 1 else 0

/-- A call that looks leaves everything as it is. -/
theorem call_of_looks {k : Call ν} (h : k.looks = true) :
    (c.call k).2.1 = c ∧ (c.call k).2.2 = [] := by
  cases k with
  | operation op =>
    cases op with
    | peek | contains => exact ⟨rfl, rfl⟩
    | get | set | delete | clear | reset => cases h
  | size | isEmpty | capacity | keys | statistics => exact ⟨rfl, rfl⟩

theorem fair_set (c : Cache ν) (key : String) (v : ν) : Entry.Fair ⟨c, .operation (.set key v),
    .reply (.evicted (c.set key v).1), (c.set key v).2.1⟩ where
  lookups := lookups_set
  evictions := by
    rw [evictions_set]
    cases h : (c.set key v).1 <;> rfl
  size := by
    have hsize := c.size_set key v
    cases h : (c.set key v).1 with
    | none =>
      rw [h] at hsize
      exact hsize
    | some evicted =>
      rw [h] at hsize
      exact hsize

/-- Every call but a reset is fair. -/
theorem fair_call (c : Cache ν) {k : Call ν} (hk : k.isReset = false) :
    Entry.Fair ⟨c, k, (c.call k).1, (c.call k).2.1⟩ := by
  cases k with
  | operation op =>
    cases op with
    | get key => exact ⟨lookups_get, evictions_get, size_get⟩
    | set key v => exact fair_set c key v
    | delete key => exact ⟨rfl, rfl, size_delete⟩
    | clear => exact ⟨rfl, rfl, Nat.zero_add _⟩
    | peek | contains => exact ⟨rfl, rfl, rfl⟩
    | reset => cases hk
  | size | isEmpty | capacity | keys | statistics => exact ⟨rfl, rfl, rfl⟩

/-- The counters and the size agree with the calls since the counters were zero. -/
structure Balanced (es : List (Entry ν)) (c : Cache ν) : Prop where
  lookups : c.lookups = es.countP Entry.isGet
  evictions : c.evictions = es.countP Entry.evicts
  entries : es.countP Entry.adds =
    c.size + c.evictions + es.countP Entry.deletes + (es.map Entry.cleared).sum

theorem Balanced.cons {es : List (Entry ν)} {e : Entry ν} (h : Balanced es e.before)
    (he : e.Fair) : Balanced (e :: es) e.after := by
  obtain ⟨hlookups, hevictions, hentries⟩ := h
  obtain ⟨hlookups', hevictions', hsize'⟩ := he
  constructor
  · rw [hlookups', hlookups, List.countP_cons]
  · rw [hevictions', hevictions, List.countP_cons]
  · rw [List.countP_cons, List.countP_cons, List.map_cons, List.sum_cons, hevictions', hentries]
    omega

/-- What was reported of the cache's metrics is what its counters say. -/
structure Told (rs : List Report) (c : Cache ν) : Prop where
  hits : Report.total Metric.cacheHit rs = c.hits
  misses : Report.total Metric.cacheMiss rs = c.misses
  evictions : Report.total Metric.cacheEviction rs = c.evictions

theorem told_get (c : Cache ν) (key : String) {rs : List Report} (h : Told rs c) :
    Told (rs ++ (c.get key).2.2) (c.get key).2.1 := by
  unfold get
  split
  all_goals
    constructor <;> simp only [Report.total_append, h.hits, h.misses, h.evictions] <;>
      simp [Metric.cacheHit, Metric.cacheMiss, Metric.cacheEviction]

theorem told_set (c : Cache ν) (key : String) (v : ν) {rs : List Report} (h : Told rs c) :
    Told (rs ++ (c.set key v).2.2) (c.set key v).2.1 := by
  unfold set
  split
  all_goals
    constructor <;> simp only [Report.total_append, h.hits, h.misses, h.evictions] <;>
      simp [Metric.cacheHit, Metric.cacheMiss, Metric.cacheEviction]

theorem told_call {rs : List Report} (h : Told rs c) {k : Call ν} (hk : k.isReset = false) :
    Told (rs ++ (c.call k).2.2) (c.call k).2.1 := by
  have hsilent : Told (rs ++ []) c := by rwa [List.append_nil]
  cases k with
  | operation op =>
    cases op with
    | get key => exact told_get c key h
    | set key v => exact told_set c key v h
    | delete | clear | peek | contains =>
      exact ⟨hsilent.hits, hsilent.misses, hsilent.evictions⟩
    | reset => cases hk
  | size | isEmpty | capacity | keys | statistics => exact hsilent

/-- A cache and the handles to it, with the calls through them, the newest first, and what was
reported, the oldest first. -/
structure Shared (ν : Type u) where
  cache : Cache ν
  handles : Nat := 1
  past : List (Entry ν) := []
  reports : List Report := []

/-- What a client does with a handle. Handles go by their numbers. -/
inductive Use (ν : Type u) where
  | clone (handle : Nat)
  | call (handle : Nat) (k : Call ν)

namespace Shared

variable {s : Shared ν}

/-- All handles lead to the one cache. -/
def use (s : Shared ν) : Use ν → Shared ν
  | .clone handle => if handle < s.handles then { s with handles := s.handles + 1 } else s
  | .call handle k =>
    if handle < s.handles then
      let (answer, cache, rs) := s.cache.call k
      { s with cache, past := ⟨s.cache, k, answer, cache⟩ :: s.past, reports := s.reports ++ rs }
    else s

/-- A new cache after some uses. -/
def run (capacity : Nat) (uses : List (Use ν)) : Shared ν :=
  uses.foldl use { cache := ofCapacity capacity }

/-- The calls since the cache was made or reset. -/
def sinceReset (s : Shared ν) : List (Entry ν) := s.past.takeWhile fun e => !e.call.isReset

/-- Whether the cache was never reset. -/
def unreset (s : Shared ν) : Bool := s.past.all fun e => !e.call.isReset

structure Kept (capacity : Nat) (s : Shared ν) : Prop where
  balanced : Balanced s.sinceReset s.cache
  told : s.unreset = true → Told s.reports s.cache
  sound : s.cache.store.Sound
  capacity_eq : s.cache.capacity = capacity

theorem sound_call (h : c.store.Sound) (k : Call ν) : (c.call k).2.1.store.Sound := by
  cases k with
  | operation op => exact sound_perform h op
  | size | isEmpty | capacity | keys | statistics => exact h

theorem capacity_call (k : Call ν) : (c.call k).2.1.capacity = c.capacity := by
  cases k with
  | operation op => exact capacity_perform op
  | size | isEmpty | capacity | keys | statistics => rfl

/-- A reset opens new books. -/
theorem balanced_reset {k : Call ν} (hk : k.isReset = true) : Balanced [] (c.call k).2.1 := by
  cases k with
  | operation op =>
    cases op with
    | reset => exact ⟨rfl, rfl, rfl⟩
    | get | peek | set | delete | contains | clear => cases hk
  | size | isEmpty | capacity | keys | statistics => cases hk

theorem Kept.call {capacity : Nat} (h : s.Kept capacity) (k : Call ν) : Kept capacity { s with
    cache := (s.cache.call k).2.1
    past := ⟨s.cache, k, (s.cache.call k).1, (s.cache.call k).2.1⟩ :: s.past
    reports := s.reports ++ (s.cache.call k).2.2 } where
  balanced := by
    rw [sinceReset, List.takeWhile_cons]
    cases hk : k.isReset with
    | false => exact h.balanced.cons (fair_call s.cache hk)
    | true => exact balanced_reset hk
  told hun := by
    rw [unreset, List.all_cons, Bool.and_eq_true, Bool.not_eq_true'] at hun
    exact told_call (h.told hun.2) hun.1
  sound := sound_call h.sound k
  capacity_eq := (capacity_call k).trans h.capacity_eq

theorem Kept.use {capacity : Nat} (h : s.Kept capacity) (u : Use ν) : (s.use u).Kept capacity := by
  cases u with
  | clone handle =>
    rw [Shared.use]
    split
    · exact ⟨h.balanced, h.told, h.sound, h.capacity_eq⟩
    · exact h
  | call handle k =>
    rw [Shared.use]
    split
    · exact h.call k
    · exact h

theorem kept_run (capacity : Nat) (uses : List (Use ν)) : (run capacity uses).Kept capacity := by
  refine List.foldlRecOn uses use ?_ fun s hs u _ => hs.use u
  exact ⟨⟨rfl, rfl, rfl⟩, fun _ => ⟨rfl, rfl, rfl⟩, ⟨List.nodup_nil, Nat.zero_le _⟩, rfl⟩

/-- Looking changes neither contents, nor their order, nor counters. -/
theorem use_of_looks (s : Shared ν) (handle : Nat) {k : Call ν} (hk : k.looks = true) :
    (s.use (.call handle k)).cache = s.cache ∧ (s.use (.call handle k)).reports = s.reports := by
  obtain ⟨hcache, hreports⟩ := call_of_looks (c := s.cache) hk
  rw [use]
  split
  · exact ⟨hcache, (congrArg (s.reports ++ ·) hreports).trans (List.append_nil _)⟩
  · exact ⟨rfl, rfl⟩

/-- Whatever is done through the handles of a cache, its counters agree with the calls since it was
made or reset, its entries are those that came and did not leave, and until it is reset its metrics
say what its counters say. A call that looks changes nothing. -/
theorem books_agree (capacity : Nat) (uses : List (Use ν)) :
    let s := run capacity uses
    let es := s.sinceReset
    let now := s.cache.statistics
    (now.hits + now.misses = es.countP Entry.isGet ∧ now.total = es.countP Entry.isGet) ∧
    now.evictions = es.countP Entry.evicts ∧
    es.countP Entry.adds = now.entries + now.evictions + es.countP Entry.deletes +
      (es.map Entry.cleared).sum ∧
    (now.entries ≤ now.capacity ∧ now.capacity = capacity) ∧
    (s.unreset = true → ∀ metric n, (metric, n) ∈ [(Metric.cacheHit, now.hits),
        (Metric.cacheMiss, now.misses), (Metric.cacheEviction, now.evictions)] →
      Report.total metric s.reports = n ∧
      (({ sink := .counting } : Meter).takeAll s.reports).counters.count metric =
        n % UInt64.size) ∧
    ∀ handle k, k.looks = true → (s.use (.call handle k)).cache = s.cache ∧
      (s.use (.call handle k)).reports = s.reports := by
  intro s es now
  have h : s.Kept capacity := kept_run capacity uses
  refine ⟨⟨h.balanced.lookups, h.balanced.lookups⟩, h.balanced.evictions, h.balanced.entries,
    ⟨h.sound.size_le, h.capacity_eq⟩, fun hun metric n hn => ?_,
    fun handle k hk => use_of_looks s handle hk⟩
  have htotal : Report.total metric s.reports = n := by
    simp only [List.mem_cons, Prod.mk.injEq, List.not_mem_nil, or_false] at hn
    rcases hn with ⟨rfl, rfl⟩ | ⟨rfl, rfl⟩ | ⟨rfl, rfl⟩
    · exact (h.told hun).hits
    · exact (h.told hun).misses
    · exact (h.told hun).evictions
  exact ⟨htotal, by rw [Meter.count_new, htotal]⟩

/-- A second handle evicts what came through the first, and deletes what it stored itself. -/
theorem books_agree_of_two_handles :
    let s := run 1 [.call 0 (.operation (.set "a" 1)), .clone 0,
      .call 1 (.operation (.set "b" 2)), .call 0 (.operation (.get "a")), .call 0 .keys,
      .call 1 (.operation (.delete "b"))]
    s.cache.statistics = ⟨0, 1, 1, 1, 0, 1⟩ ∧ s.unreset = true ∧
      s.sinceReset.countP Entry.adds = 2 ∧
      Report.total Metric.cacheEviction s.reports = s.cache.statistics.evictions := by
  refine ⟨rfl, rfl, rfl, ?_⟩
  exact ((books_agree 1 _).2.2.2.2.1 rfl _ _ (by simp)).1

end Shared

end Cache

end Folio
