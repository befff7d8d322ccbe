import Folio.Cache.Response
import Folio.Proofs.Cache.Watched

/-! What a cache holds after an operation, and that no operation changes its capacity. -/
namespace Folio

universe u

variable {ν : Type u}

namespace Lru

variable {s : Lru ν} {key : String} {v : ν}

@[simp] theorem capacity_get : (s.get key).2.capacity = s.capacity := (s.step_get key).capacity_eq

@[simp] theorem capacity_insert : (s.insert key v).2.capacity = s.capacity :=
  (s.step_insert key v).capacity_eq

/-- The entry just stored is there. -/
theorem mem_keys_insert (h : 0 < s.capacity) : key ∈ (s.insert key v).2.keys := by
  have hstep := s.step_insert key v
  generalize s.insert key v = result at hstep
  obtain ⟨evicted, t⟩ := result
  cases hstep with
  | ignore _ _ hzero => exact (Nat.ne_of_gt h hzero).elim
  | store _ _ _ => exact mem_keys_touch.2 (.inl rfl)
  | evict _ _ _ _ _ => exact mem_keys_touch.2 (.inl rfl)

theorem mem_of_mem_get {e : String × ν} (h : e ∈ (s.get key).2.entries) : e ∈ s.entries := by
  have hstep := s.step_get key
  generalize s.get key = result at hstep h
  obtain ⟨found, t⟩ := result
  cases hstep with
  | hit hpeek =>
    rcases mem_of_mem_touch h with rfl | h
    · exact Entries.mem_of_get? hpeek
    · exact h
  | miss _ => exact h

/-- A lookup moves an entry at most. Distinct keys are needed: what moves is the first entry of a key.
-/
theorem peek_get (h : s.keys.Nodup) (key k : String) : (s.get key).2.peek k = s.peek k := by
  have hstep := s.step_get key
  generalize s.get key = result at hstep ⊢
  obtain ⟨found, t⟩ := result
  cases hstep with
  | miss _ => rfl
  | @hit _ v hpeek =>
    change (s.touch key v).peek k = s.peek k
    rw [peek, touch, Entries.get?_append]
    by_cases hk : k = key
    · subst hk
      rw [Entries.get?_erase_self h, Option.none_or, hpeek, Entries.get?, if_pos rfl]
    · rw [Entries.get?_erase_of_ne hk, Entries.get?, if_neg (Ne.symm hk), Entries.get?,
        Option.or_none, peek]

theorem get_of_absent (h : s.peek key = none) : s.get key = (none, s) := by rw [get, h]

theorem peek_touch_self (h : key ∉ s.keys) : (s.touch key v).peek key = some v := by
  have habsent : Entries.get? key (Entries.erase key s.entries) = none := by
    rw [Entries.get?_eq_none_iff, Entries.keys_erase]
    exact fun hmem => h (List.mem_of_mem_erase hmem)
  rw [peek, touch, Entries.get?_append, habsent, Option.none_or, Entries.get?, if_pos rfl]

/-- A value that is stored under a new key is found there, whatever had to leave for it. -/
theorem peek_insert_self (hcapacity : 0 < s.capacity) (h : key ∉ s.keys) :
    (s.insert key v).2.peek key = some v := by
  have hstep := s.step_insert key v
  generalize s.insert key v = result at hstep
  obtain ⟨evicted, t⟩ := result
  cases hstep with
  | ignore _ _ hzero => exact (Nat.ne_of_gt hcapacity hzero).elim
  | store _ _ _ => exact peek_touch_self h
  | evict _ _ _ _ hentries =>
    refine peek_touch_self fun hmem => h ?_
    rw [keys, hentries]
    exact List.mem_cons_of_mem _ hmem

theorem mem_of_mem_insert {e : String × ν} (h : e ∈ (s.insert key v).2.entries) :
    e = (key, v) ∨ e ∈ s.entries := by
  have hstep := s.step_insert key v
  generalize s.insert key v = result at hstep h
  obtain ⟨evicted, t⟩ := result
  cases hstep with
  | ignore _ _ _ => exact .inr h
  | store _ _ _ => exact mem_of_mem_touch h
  | evict _ _ _ _ hentries =>
    refine (mem_of_mem_touch h).imp_right fun hrest => ?_
    rw [hentries]
    exact List.mem_cons_of_mem _ hrest

end Lru

namespace Cache

variable {c : Cache ν} {key : String} {v : ν}

/-- A lookup is a lookup in the store, counted. -/
theorem get_eq (c : Cache ν) (key : String) :
    (c.get key).1 = (c.store.get key).1 ∧ (c.get key).2.1.store = (c.store.get key).2 := by
  unfold get
  split
  · next hs => rw [hs]; exact ⟨rfl, rfl⟩
  · next hs => rw [hs]; exact ⟨rfl, rfl⟩

theorem store_set (c : Cache ν) (key : String) (v : ν) :
    (c.set key v).2.1.store = (c.store.insert key v).2 := by
  unfold set
  split
  · next hs => rw [hs]
  · next hs => rw [hs]

@[simp] theorem capacity_get : (c.get key).2.1.capacity = c.capacity := by
  rw [capacity, (c.get_eq key).2, Lru.capacity_get, capacity]

@[simp] theorem capacity_set : (c.set key v).2.1.capacity = c.capacity := by
  rw [capacity, store_set, Lru.capacity_insert, capacity]

/-- A cache stays within its capacity and has no key twice. -/
theorem sound_perform (h : c.store.Sound) (op : Operation ν) : (c.perform op).2.1.store.Sound := by
  cases op with
  | get key =>
    have hstep := h.step (c.store.step_get key)
    rwa [← (c.get_eq key).2] at hstep
  | set key v =>
    have hstep := h.step (c.store.step_insert key v)
    rwa [← store_set] at hstep
  | delete key => exact h.step (c.store.step_perform (.remove key))
  | clear | reset => exact h.step (c.store.step_perform .clear)
  | peek key | contains key => exact h

@[simp] theorem capacity_perform (op : Operation ν) :
    (c.perform op).2.1.capacity = c.capacity := by
  cases op with
  | get key => exact capacity_get
  | set key v => exact capacity_set
  | peek key | delete key | contains key | clear | reset => rfl

theorem contains_set (h : 0 < c.capacity) : (c.set key v).2.1.contains key = true := by
  rw [contains, peek, store_set]
  exact Lru.isSome_peek_iff.2 (Lru.mem_keys_insert h)

theorem peek_set_self (hcapacity : 0 < c.capacity) (h : c.peek key = none) :
    (c.set key v).2.1.peek key = some v := by
  rw [peek, store_set]
  exact Lru.peek_insert_self hcapacity fun hmem => by
    rw [← Lru.isSome_peek_iff, ← peek, h] at hmem
    cases hmem

/-- A value is stored under a key. -/
def Holds (c : Cache ν) (key : String) (v : ν) : Prop := (key, v) ∈ c.store.entries

theorem holds_of_peek (h : c.peek key = some v) : c.Holds key v := Entries.mem_of_get? h

/-- A lookup returns what a glance would. -/
theorem fst_get : (c.get key).1 = c.peek key := (c.get_eq key).1.trans (c.store.fst_get key)

/-- A lookup in vain leaves the entries as they are. -/
theorem store_get_of_absent (h : c.peek key = none) : (c.get key).2.1.store = c.store := by
  rw [(c.get_eq key).2, Lru.get_of_absent h]

theorem peek_get (h : c.store.keys.Nodup) (key k : String) : (c.get key).2.1.peek k = c.peek k := by
  rw [peek, (c.get_eq key).2, Lru.peek_get h, peek]

variable {k : String} {w : ν}

theorem holds_of_get (h : (c.get key).2.1.Holds k w) : c.Holds k w := by
  rw [Holds, (c.get_eq key).2] at h
  exact Lru.mem_of_mem_get h

theorem holds_of_set (h : (c.set key v).2.1.Holds k w) : (k = key ∧ w = v) ∨ c.Holds k w := by
  rw [Holds, store_set] at h
  exact (Lru.mem_of_mem_insert h).imp Prod.mk.inj id

/-- Whether an operation stores a value. -/
def Operation.isSet : Operation ν → Bool
  | .set _ _ => true
  | .get _ | .peek _ | .delete _ | .contains _ | .clear | .reset => false

/-- Only storing puts something new into a cache. -/
theorem holds_of_perform {op : Operation ν} (hop : op.isSet = false)
    (h : (c.perform op).2.1.Holds k w) : c.Holds k w := by
  cases op with
  | get key => exact holds_of_get h
  | set key v => cases hop
  | peek key | contains key => exact h
  | delete key => exact Entries.erase_subset key c.store.entries h
  | clear | reset => cases h

end Cache

end Folio
