import Folio.Ordered
import Std.Data.ExtHashMap

/-!
Ordered maps that grow to any size: the place of each key is known without a search, so that putting
a value under a key costs the same however many there are. Main statements: inserting here is
inserting into the ordered map, and a list of entries makes the same map either way.
-/
namespace Folio

universe u v

/-- An ordered map with the place of each of its keys. -/
structure Indexed (α : Type u) (β : Type v) [DecidableEq α] [Hashable α] where
  index : Std.ExtHashMap α Nat
  /-- The entries in the order in which the keys came. -/
  items : Array (α × β)
  getElem?_index : ∀ (k : α) (i : Nat), index[k]? = some i ↔ (items.toList.map Prod.fst)[i]? = some k

namespace Indexed

variable {α : Type u} {β : Type v} [DecidableEq α] [Hashable α]

def empty : Indexed α β := ⟨∅, #[], by simp⟩

instance : Inhabited (Indexed α β) := ⟨empty⟩

variable (m : Indexed α β)

/-- No key is listed twice, for it would have two places. -/
theorem nodup_keys : (m.items.toList.map Prod.fst).Nodup := by
  refine List.pairwise_iff_getElem.2 fun i j hi hj hij he => Nat.ne_of_lt hij ?_
  have h := (m.getElem?_index _ i).2 (List.getElem?_eq_getElem hi)
  have h' := (m.getElem?_index _ j).2 (List.getElem?_eq_getElem hj)
  rw [← he, h] at h'
  exact Option.some.inj h'

theorem lt_size {k : α} {i : Nat} (h : m.index[k]? = some i) : i < m.items.size := by
  obtain ⟨hi, -⟩ := List.getElem?_eq_some_iff.1 ((m.getElem?_index k i).1 h)
  simpa using hi

theorem not_mem_keys {k : α} (h : m.index[k]? = none) : k ∉ m.items.toList.map Prod.fst := by
  intro hk
  obtain ⟨i, hi⟩ := List.getElem?_of_mem hk
  simp [(m.getElem?_index k i).2 hi] at h

/-- The map without its index. -/
def toOrdered : Ordered α β := ⟨m.items.toList, m.nodup_keys⟩

/-- The entries in the order in which the keys came. -/
def entries : List (α × β) := m.toOrdered.entries

/-- Puts a value under a key. A key that is listed keeps its place. -/
def insert (k : α) (v : β) : Indexed α β :=
  match m with
  | ⟨index, items, hm⟩ =>
    match h : index[k]? with
    | some i => ⟨index, items.set i (k, v) (lt_size ⟨index, items, hm⟩ h), fun k' j => by
        obtain ⟨hi, hk⟩ := List.getElem?_eq_some_iff.1 ((hm k i).1 h)
        simp only [hm, Array.toList_set, List.map_set, ← hk, List.set_getElem_self]⟩
    | none => ⟨index.insert k items.size, items.push (k, v), fun k' j => by
        have hk : k ∉ items.toList.map Prod.fst := not_mem_keys ⟨index, items, hm⟩ h
        have hj := hm k' j
        rw [Std.ExtHashMap.getElem?_insert, Array.toList_push, List.map_append,
          List.getElem?_append, List.length_map, Array.length_toList]
        by_cases hn : k = k'
        · subst hn
          have := @List.mem_of_getElem? _ (items.toList.map Prod.fst) j k
          grind
        · grind⟩

theorem toOrdered_empty : (empty : Indexed α β).toOrdered = .empty := rfl

theorem toOrdered_insert (k : α) (v : β) :
    (m.insert k v).toOrdered = m.toOrdered.insert k v := by
  obtain ⟨index, items, hm⟩ := m
  simp only [insert]
  split
  · next i h =>
    have hn := nodup_keys ⟨index, items, hm⟩
    simp only [toOrdered, Ordered.insert, Array.toList_set, Entries.put_eq_set ((hm k i).1 h) hn]
  · next h =>
    have hk := not_mem_keys ⟨index, items, hm⟩ h
    simp only [toOrdered, Ordered.insert, Array.toList_push, Entries.put_of_not_mem hk]

/-- The map of a list of entries, of which a later one overwrites an earlier one in place. -/
def ofList (es : List (α × β)) : Indexed α β := es.foldl (fun m e => m.insert e.1 e.2) empty

theorem toOrdered_foldl_insert (es : List (α × β)) (m : Indexed α β) :
    (es.foldl (fun m e => m.insert e.1 e.2) m).toOrdered =
      es.foldl (fun m e => m.insert e.1 e.2) m.toOrdered := by
  induction es generalizing m with
  | nil => rfl
  | cons e es ih => rw [List.foldl_cons, List.foldl_cons, ih, toOrdered_insert]

theorem toOrdered_ofList (es : List (α × β)) : (ofList es).toOrdered = .ofList es :=
  toOrdered_foldl_insert es empty

def ofOrdered (m : Ordered α β) : Indexed α β := ofList m.entries

theorem toOrdered_ofOrdered (m : Ordered α β) : (ofOrdered m).toOrdered = m :=
  (toOrdered_ofList m.entries).trans m.ofList_entries

end Indexed

end Folio
