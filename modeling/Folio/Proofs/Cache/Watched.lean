import Folio.Proofs.Cache.Steps
import Mathlib.Data.List.Nodup

/-! A bounded store together with what happened to it since it was made. Whatever it was, the keys
are distinct and the capacity is kept. -/
namespace Folio.Lru

universe u

variable {ν : Type u} {s t : Lru ν} {key : String} {v : ν}

/-- The keys of a store are distinct, and it holds no more entries than it may. -/
structure Sound (s : Lru ν) : Prop where
  nodup_keys : s.keys.Nodup
  size_le : s.size ≤ s.capacity

namespace Sound

theorem nodup_touch (h : s.keys.Nodup) : (s.touch key v).keys.Nodup := by
  rw [keys_touch, List.nodup_append]
  refine ⟨h.erase key, List.nodup_singleton key, ?_⟩
  intro k hk k' hk' heq
  rw [List.mem_singleton.1 hk'] at heq
  exact (h.mem_erase_iff.1 hk).1 heq

theorem step {e : Event ν} (hs : s.Sound) (h : s.Step e t) : t.Sound := by
  obtain ⟨hnodup, hsize⟩ := hs
  cases h with
  | miss | peek | ignore => exact ⟨hnodup, hsize⟩
  | hit h =>
    have hkey := mem_keys_of_peek h
    exact ⟨nodup_touch hnodup, le_of_eq_of_le (size_touch_of_mem hkey) hsize⟩
  | @store key v hcapacity h =>
    refine ⟨nodup_touch hnodup, ?_⟩
    by_cases hkey : key ∈ s.keys
    · exact le_of_eq_of_le (size_touch_of_mem hkey) hsize
    · have hroom : s.size < s.capacity := h.resolve_left hkey
      exact le_of_eq_of_le (size_touch_of_not_mem hkey) hroom
  | evict v _ hkey _ hentries =>
    refine ⟨nodup_touch ?_, le_of_eq_of_le (size_touch_rest hkey hentries) hsize⟩
    rw [keys_eq_cons hentries] at hnodup
    exact (List.nodup_cons.1 hnodup).2
  | remove key =>
    refine ⟨Entries.nodup_erase key hnodup, ?_⟩
    exact Nat.le_trans (Entries.erase_sublist key s.entries).length_le hsize
  | clear => exact ⟨List.nodup_nil, Nat.zero_le _⟩

end Sound

/-- A store and what happened to it since it was made, the newest first. -/
structure Watched (ν : Type u) where
  store : Lru ν
  past : List (Event ν) := []

/-- A new store. -/
def watched (capacity : Nat) : Watched ν := { store := { capacity } }

namespace Watched

def perform (w : Watched ν) (op : Operation ν) : Watched ν :=
  let (reply, store) := w.store.perform op
  ⟨store, ⟨op, reply⟩ :: w.past⟩

/-- Performs operations one after another. -/
def run (w : Watched ν) (ops : List (Operation ν)) : Watched ν := ops.foldl perform w

/-- What every step keeps, a run keeps. -/
theorem run_keeps {P : Lru ν → List (Event ν) → Prop}
    (hstep : ∀ s e t past, s.Step e t → P s past → P t (e :: past)) (ops : List (Operation ν))
    (w : Watched ν) (hw : P w.store w.past) : P (w.run ops).store (w.run ops).past := by
  induction ops generalizing w with
  | nil => exact hw
  | cons op ops ih =>
    apply ih (w.perform op)
    exact hstep w.store _ _ w.past (step_perform w.store op) hw

theorem sound_run (capacity : Nat) (ops : List (Operation ν)) :
    ((watched capacity).run ops).store.Sound :=
  run_keeps (P := fun s _ => s.Sound) (fun _ _ _ _ h hs => hs.step h) ops (watched capacity)
    ⟨List.nodup_nil, Nat.zero_le _⟩

theorem capacity_run (capacity : Nat) (ops : List (Operation ν)) :
    ((watched capacity).run ops).store.capacity = capacity :=
  run_keeps (P := fun s _ => s.capacity = capacity) (fun _ _ _ _ h hs => h.capacity_eq.trans hs) ops
    (watched capacity) rfl

end Watched

end Folio.Lru
