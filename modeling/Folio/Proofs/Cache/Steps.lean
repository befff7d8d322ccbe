import Folio.Cache.Lru
import Folio.Proofs.Entries

/-! The operations of a bounded store as one step relation, which says all that each of them can do.
-/
namespace Folio.Lru

universe u

variable {ν : Type u} {s t : Lru ν} {key : String} {v : ν}

theorem isSome_peek_iff : (s.peek key).isSome = true ↔ key ∈ s.keys := by
  unfold peek keys
  rw [Option.isSome_iff_ne_none, ne_eq, Entries.get?_eq_none_iff, Classical.not_not]

theorem mem_keys_of_peek (h : s.peek key = some v) : key ∈ s.keys :=
  isSome_peek_iff.1 (Option.isSome_of_eq_some h)

/-- An operation on a store. -/
inductive Operation (ν : Type u) where
  | get (key : String)
  | peek (key : String)
  | insert (key : String) (value : ν)
  | remove (key : String)
  | clear

/-- What an operation returns. -/
inductive Reply (ν : Type u) where
  | value (v : Option ν)
  | evicted (key : Option String)
  | found (b : Bool)
  | done

/-- An operation that was performed, and what it returned. -/
structure Event (ν : Type u) where
  operation : Operation ν
  reply : Reply ν

def perform (s : Lru ν) : Operation ν → Reply ν × Lru ν
  | .get key => let (v, s) := s.get key; (.value v, s)
  | .peek key => (.value (s.peek key), s)
  | .insert key value => let (k, s) := s.insert key value; (.evicted k, s)
  | .remove key => let (b, s) := s.remove key; (.found b, s)
  | .clear => (.done, s.clear)

/-- All that an operation can do to a store. -/
inductive Step (s : Lru ν) : Event ν → Lru ν → Prop
  | hit {key : String} {v : ν} (h : s.peek key = some v) :
    Step s ⟨.get key, .value (some v)⟩ (s.touch key v)
  | miss {key : String} (h : s.peek key = none) : Step s ⟨.get key, .value none⟩ s
  | peek (key : String) : Step s ⟨.peek key, .value (s.peek key)⟩ s
  | ignore (key : String) (v : ν) (h : s.capacity = 0) : Step s ⟨.insert key v, .evicted none⟩ s
  | store {key : String} (v : ν) (hcapacity : 0 < s.capacity)
    (h : key ∈ s.keys ∨ s.size < s.capacity) :
    Step s ⟨.insert key v, .evicted none⟩ (s.touch key v)
  | evict {key : String} (v : ν) {oldest : String × ν} {rest : List (String × ν)}
    (hcapacity : 0 < s.capacity) (hkey : key ∉ s.keys) (hfull : s.capacity ≤ s.size)
    (hentries : s.entries = oldest :: rest) :
    Step s ⟨.insert key v, .evicted (some oldest.1)⟩ ({ s with entries := rest }.touch key v)
  | remove (key : String) :
    Step s ⟨.remove key, .found (s.peek key).isSome⟩
      { s with entries := Entries.erase key s.entries }
  | clear : Step s ⟨.clear, .done⟩ s.clear

@[simp] theorem capacity_touch : (s.touch key v).capacity = s.capacity := rfl

theorem keys_touch (s : Lru ν) (key : String) (v : ν) :
    (s.touch key v).keys = s.keys.erase key ++ [key] := by
  rw [keys, touch, List.map_append, Entries.keys_erase]
  rfl

theorem mem_keys_touch {k : String} : k ∈ (s.touch key v).keys ↔ k = key ∨ k ∈ s.keys := by
  rw [keys_touch, List.mem_append, List.mem_singleton]
  by_cases h : k = key
  · simp [h]
  · simp [h, List.mem_erase_of_ne h]

theorem mem_of_mem_touch {e : String × ν} (h : e ∈ (s.touch key v).entries) :
    e = (key, v) ∨ e ∈ s.entries := by
  rcases List.mem_append.1 h with h | h
  · exact .inr (Entries.erase_subset key s.entries h)
  · exact .inl (List.mem_singleton.1 h)

/-- Touching a key that is not there puts it at the end. -/
theorem touch_of_not_mem (h : key ∉ s.keys) :
    s.touch key v = { s with entries := s.entries ++ [(key, v)] } := by
  rw [touch, Entries.erase_of_not_mem h]

theorem keys_eq_cons {oldest : String × ν} {rest : List (String × ν)}
    (h : s.entries = oldest :: rest) : s.keys = oldest.1 :: rest.map Prod.fst := by
  rw [keys, h, List.map_cons]

theorem size_eq_length_keys (s : Lru ν) : s.size = s.keys.length := by
  rw [size, keys, List.length_map]

theorem size_touch_of_mem (h : key ∈ s.keys) : (s.touch key v).size = s.size := by
  have hpos := List.length_pos_of_mem h
  rw [size_eq_length_keys, keys_touch, List.length_append, List.length_erase_of_mem h,
    size_eq_length_keys, List.length_singleton]
  omega

theorem size_touch_of_not_mem (h : key ∉ s.keys) : (s.touch key v).size = s.size + 1 := by
  rw [touch_of_not_mem h, size, List.length_append, List.length_singleton, size]

/-- Whoever takes the place of another leaves the size as it was. -/
theorem size_touch_rest {oldest : String × ν} {rest : List (String × ν)} (h : key ∉ s.keys)
    (hentries : s.entries = oldest :: rest) :
    ({ s with entries := rest }.touch key v).size = s.size := by
  rw [keys_eq_cons hentries, List.mem_cons, not_or] at h
  rw [size_touch_of_not_mem (s := { s with entries := rest }) h.2, size, size, hentries,
    List.length_cons]

theorem size_remove (s : Lru ν) (key : String) :
    (s.remove key).2.size = if key ∈ s.keys then s.size - 1 else s.size := by
  rw [size_eq_length_keys, size_eq_length_keys, ← List.length_erase, keys, keys,
    ← Entries.keys_erase]
  rfl

/-- A lookup returns what a glance would. -/
theorem fst_get (s : Lru ν) (key : String) : (s.get key).1 = s.peek key := by
  unfold get
  split
  · next hpeek => exact hpeek.symm
  · next hpeek => exact hpeek.symm

theorem step_get (s : Lru ν) (key : String) :
    s.Step ⟨.get key, .value (s.get key).1⟩ (s.get key).2 := by
  unfold get
  split
  · next hpeek => exact .hit hpeek
  · next hpeek => exact .miss hpeek

theorem step_insert (s : Lru ν) (key : String) (v : ν) :
    s.Step ⟨.insert key v, .evicted (s.insert key v).1⟩ (s.insert key v).2 := by
  unfold insert
  split
  · next hzero => exact .ignore key v hzero
  · next hzero =>
    have hcapacity : 0 < s.capacity := Nat.pos_of_ne_zero hzero
    split
    · next hpeek => exact .store v hcapacity (.inl (isSome_peek_iff.1 hpeek))
    · next hpeek =>
      have hkey : key ∉ s.keys := fun h => hpeek (isSome_peek_iff.2 h)
      split
      · next hroom =>
        rw [← touch_of_not_mem hkey]
        exact .store v hcapacity (.inr hroom)
      · next hfull =>
        split
        · next hnil =>
          rw [size, hnil] at hfull
          exact (hfull hcapacity).elim
        · next oldest rest hentries =>
          have hrest : key ∉ ({ s with entries := rest } : Lru ν).keys := by
            intro h
            apply hkey
            rw [keys_eq_cons hentries]
            exact List.mem_cons_of_mem _ h
          have hstep := Step.evict v hcapacity hkey (Nat.le_of_not_lt hfull) hentries
          rwa [touch_of_not_mem hrest] at hstep

theorem step_perform (s : Lru ν) (op : Operation ν) :
    s.Step ⟨op, (s.perform op).1⟩ (s.perform op).2 := by
  cases op with
  | get key => exact step_get s key
  | peek key => exact .peek key
  | insert key v => exact step_insert s key v
  | remove key => exact .remove key
  | clear => exact .clear

/-- A store without capacity has no entries. -/
theorem entries_eq_nil (h : s.size ≤ s.capacity) (hzero : s.capacity = 0) : s.entries = [] := by
  rw [hzero, Nat.le_zero] at h
  exact List.length_eq_zero_iff.1 h

theorem Step.capacity_eq {e : Event ν} (h : s.Step e t) : t.capacity = s.capacity := by
  cases h <;> rfl

end Folio.Lru
