import Folio.Proofs.Cache.Watched

/-! Stores of different capacities under the same operations: what the smaller one holds, the larger
one holds too, in the same order of use. Lookups that only the larger store answers change its order
alone, and removals leave the two unequally full, so that the invariant bounds by how much the
larger store may be ahead: it never evicts before the smaller one is full. -/
namespace Folio.Lru

universe u

variable {ν : Type u} {s s' l l' : Lru ν} {e f : Event ν} {key : String}

/-- One store within another. -/
structure Within (s l : Lru ν) : Prop where
  small : s.Sound
  large : l.Sound
  sublist : s.entries.Sublist l.entries
  /-- The larger store has at most as many entries more as it has room more. -/
  ahead : l.size + s.capacity ≤ s.size + l.capacity

/-- The same operation, which found nothing in the first case that it did not find in the second.
-/
def Event.CoveredBy (e f : Event ν) : Prop :=
  e.operation = f.operation ∧ ∀ v, e.reply = .value (some v) → f.reply = .value (some v)

namespace Within

theorem keys_subset (h : Within s l) : s.keys ⊆ l.keys := (h.sublist.map Prod.fst).subset

/-- What is found in the smaller store is found in the larger one. -/
theorem peek_eq (h : Within s l) {v : ν} (hpeek : s.peek key = some v) : l.peek key = some v :=
  Entries.get?_of_mem h.large.nodup_keys (h.sublist.subset (Entries.mem_of_get? hpeek))

/-- The entry of a key that the smaller store does not have can go to the end of the larger one. -/
theorem sublist_erase (h : s.entries.Sublist l.entries) (hkey : key ∉ s.keys) :
    s.entries.Sublist (Entries.erase key l.entries) := by
  have herase := Entries.erase_sublist_erase key h
  rwa [Entries.erase_of_not_mem hkey] at herase

theorem sublist_touch (h : s.entries.Sublist l.entries) (key : String) (v : ν) :
    (s.touch key v).entries.Sublist (l.touch key v).entries :=
  (Entries.erase_sublist_erase key h).append (.refl _)

theorem step_get {r q : Reply ν} (h : Within s l) (hs : s.Step ⟨.get key, r⟩ s')
    (hl : l.Step ⟨.get key, q⟩ l') :
    s'.entries.Sublist l'.entries ∧ l'.size + s'.capacity ≤ s'.size + l'.capacity := by
  have hahead := h.ahead
  cases hs with
  | @hit _ v hpeek =>
    have hkey : key ∈ s.keys := mem_keys_of_peek hpeek
    cases hl with
    | @hit _ w hfound =>
      obtain rfl := Option.some.inj ((h.peek_eq hpeek).symm.trans hfound)
      refine ⟨sublist_touch h.sublist key v, ?_⟩
      rw [size_touch_of_mem hkey, size_touch_of_mem (h.keys_subset hkey)]
      exact hahead
    | miss hnone => cases (h.peek_eq hpeek).symm.trans hnone
  | miss hpeek =>
    have hkey : key ∉ s.keys := Entries.get?_eq_none_iff.1 hpeek
    cases hl with
    | @hit _ w hfound =>
      have hmem : key ∈ l.keys := mem_keys_of_peek hfound
      refine ⟨(sublist_erase h.sublist hkey).trans (List.sublist_append_left ..), ?_⟩
      rw [size_touch_of_mem hmem]
      exact hahead
    | miss _ => exact ⟨h.sublist, hahead⟩

theorem step_insert {v : ν} {r q : Reply ν} (h : Within s l) (hs : s.Step ⟨.insert key v, r⟩ s')
    (hl : l.Step ⟨.insert key v, q⟩ l') :
    s'.entries.Sublist l'.entries ∧ l'.size + s'.capacity ≤ s'.size + l'.capacity := by
  have hahead := h.ahead
  have hless : s.size ≤ l.size := h.sublist.length_le
  have hlarge := (h.large.step hl).size_le
  cases hs with
  | ignore _ _ hzero =>
    rw [entries_eq_nil h.small.size_le hzero, hzero]
    exact ⟨List.nil_sublist _, Nat.le_trans hlarge (Nat.le_add_left ..)⟩
  | store _ hcapacity hroom =>
    cases hl with
    | ignore _ _ hzero => omega
    | store _ _ _ =>
      refine ⟨sublist_touch h.sublist key v, ?_⟩
      dsimp only [capacity_touch]
      by_cases hkey : key ∈ s.keys
      · rw [size_touch_of_mem hkey, size_touch_of_mem (h.keys_subset hkey)]
        exact hahead
      · rw [size_touch_of_not_mem hkey]
        by_cases hmem : key ∈ l.keys
        · rw [size_touch_of_mem hmem]
          omega
        · rw [size_touch_of_not_mem hmem]
          omega
    | evict _ _ hnew hfull _ =>
      -- the smaller store would have room, and the larger one not
      have hkey : key ∉ s.keys := fun hmem => hnew (h.keys_subset hmem)
      have hsize := hroom.resolve_left hkey
      omega
  | @evict _ _ oldest rest hcapacity hkey hfull hentries =>
    have hrest : rest.Sublist l.entries := by
      refine List.Sublist.trans ?_ h.sublist
      rw [hentries]
      exact List.sublist_cons_self ..
    rw [size_touch_rest hkey hentries]
    cases hl with
    | ignore _ _ hzero => omega
    | store _ _ hroom =>
      refine ⟨sublist_touch (s := { s with entries := rest }) hrest key v, ?_⟩
      dsimp only [capacity_touch] at hlarge ⊢
      by_cases hmem : key ∈ l.keys
      · rw [size_touch_of_mem hmem]
        exact hahead
      · omega
    | @evict _ _ oldest' rest' _ hnew _ hentries' =>
      rw [size_touch_rest hnew hentries']
      refine ⟨sublist_touch (s := { s with entries := rest })
        (l := { l with entries := rest' }) ?_ key v, hahead⟩
      have htail := h.sublist.tail
      rwa [hentries, hentries'] at htail

theorem step_remove (h : Within s l) (key : String) :
    (l.remove key).2.size + s.capacity ≤ (s.remove key).2.size + l.capacity := by
  have hahead := h.ahead
  rw [size_remove, size_remove]
  by_cases hkey : key ∈ s.keys
  · have hmem := h.keys_subset hkey
    have hsmall : 0 < s.size := s.size_eq_length_keys ▸ List.length_pos_of_mem hkey
    have hlarge : 0 < l.size := l.size_eq_length_keys ▸ List.length_pos_of_mem hmem
    rw [if_pos hkey, if_pos hmem]
    omega
  · rw [if_neg hkey]
    split <;> omega

theorem covered (h : Within s l) (op : Operation ν) :
    Event.CoveredBy ⟨op, (s.perform op).1⟩ ⟨op, (l.perform op).1⟩ := by
  refine ⟨rfl, ?_⟩
  intro v hv
  cases op with
  | get key =>
    simp only [perform, Reply.value.injEq, fst_get] at hv ⊢
    exact h.peek_eq hv
  | peek key =>
    simp only [perform, Reply.value.injEq] at hv ⊢
    exact h.peek_eq hv
  | insert | remove | clear => cases hv

/-- The same operation on both stores. -/
theorem step (h : Within s l) (op : Operation ν) : Within (s.perform op).2 (l.perform op).2 := by
  have hs := s.step_perform op
  have hl := l.step_perform op
  suffices hboth : (s.perform op).2.entries.Sublist (l.perform op).2.entries ∧
      (l.perform op).2.size + (s.perform op).2.capacity ≤
        (s.perform op).2.size + (l.perform op).2.capacity from
    ⟨h.small.step hs, h.large.step hl, hboth.1, hboth.2⟩
  cases op with
  | get key => exact h.step_get hs hl
  | peek key => exact ⟨h.sublist, h.ahead⟩
  | insert key v => exact h.step_insert hs hl
  | remove key => exact ⟨Entries.erase_sublist_erase key h.sublist, h.step_remove key⟩
  | clear =>
    have hahead := h.ahead
    have hless : s.size ≤ l.size := h.sublist.length_le
    refine ⟨.refl _, ?_⟩
    change 0 + s.capacity ≤ 0 + l.capacity
    omega

/-- The same operations on both stores. -/
theorem run {a b : Watched ν} (h : Within a.store b.store)
    (hpast : List.Forall₂ Event.CoveredBy a.past b.past) (ops : List (Operation ν)) :
    Within (a.run ops).store (b.run ops).store ∧
      List.Forall₂ Event.CoveredBy (a.run ops).past (b.run ops).past := by
  induction ops generalizing a b with
  | nil => exact ⟨h, hpast⟩
  | cons op ops ih => exact ih (h.step op) (.cons (h.covered op) hpast)

end Within

/-- Under the same operations, the entries of a store are among those of a store that is at least as
large, in the same order of use and with the same values, and no lookup ever finds something in the
smaller store that it does not find in the larger one. -/
theorem larger_store_includes {m n : Nat} (h : m ≤ n) (ops : List (Operation ν)) :
    let small := (watched m).run ops
    let large := (watched n).run ops
    small.store.entries.Sublist large.store.entries ∧
      List.Forall₂ Event.CoveredBy small.past large.past := by
  have hnew : Within (watched (ν := ν) m).store (watched n).store := by
    refine ⟨⟨List.nodup_nil, Nat.zero_le _⟩, ⟨List.nodup_nil, Nat.zero_le _⟩, .refl _, ?_⟩
    exact Nat.add_le_add_left h 0
  obtain ⟨hwithin, hpast⟩ := hnew.run .nil ops
  exact ⟨hwithin.sublist, hpast⟩

/-- A lookup that only the larger store answers, and a removal: two insertions later it still holds
the key that the smaller store evicted first. -/
theorem larger_store_includes_after_drift :
    let ops : List (Operation Nat) := [.insert "a" 1, .insert "b" 2, .insert "c" 3, .get "a",
      .remove "b", .insert "d" 4, .insert "e" 5]
    let small := (watched 2).run ops
    let large := (watched 3).run ops
    2 ≤ 3 ∧ small.store.keys = ["d", "e"] ∧ large.store.keys = ["a", "d", "e"] ∧
      small.store.entries.Sublist large.store.entries ∧
      List.Forall₂ Event.CoveredBy small.past large.past :=
  ⟨by decide, by decide, by decide, larger_store_includes (by decide) _⟩

end Folio.Lru
