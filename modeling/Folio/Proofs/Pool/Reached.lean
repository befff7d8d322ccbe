import Folio.Page.Context
import Folio.Page.Node

/-! Pools as their operations leave them: whatever is free in one was cleared. -/
namespace Folio.Pool

universe u

/-- Instances of which nothing is left when they are cleared. -/
class Lawful (α : Type u) [Reusable α] : Prop where
  reset_eq : ∀ a : α, Reusable.reset a = Reusable.fresh

instance : Lawful Node := ⟨fun _ => rfl⟩

instance : Lawful Context := ⟨fun _ => rfl⟩

variable {α : Type u} [Reusable α] {p : Pool α} {a : α}

/-- The pools that start empty and change by their operations only. -/
inductive Reached : Pool α → Prop
  | empty (capacity : Nat) (names : Names) : Reached { capacity, names }
  | acquire {p : Pool α} (h : Reached p) : Reached p.acquire.2.1
  | release {p : Pool α} (h : Reached p) (a : α) : Reached (p.release a).2.1
  | clear {p : Pool α} (h : Reached p) : Reached p.clear

theorem mem_free_of_acquire (h : a ∈ p.acquire.2.1.free) : a ∈ p.free := by
  unfold acquire at h
  split at h
  · next hfree =>
    rw [hfree]
    exact List.mem_cons_of_mem _ h
  · exact h

theorem mem_free_of_release {b : α} (h : a ∈ (p.release b).2.1.free) :
    a = Reusable.reset b ∨ a ∈ p.free := by
  unfold release at h
  split at h
  · exact .inr h
  · exact List.mem_cons.1 h

theorem Reached.eq_reset (h : Reached p) (ha : a ∈ p.free) : ∃ b, a = Reusable.reset b := by
  induction h with
  | empty capacity names => cases ha
  | acquire _ ih => exact ih (mem_free_of_acquire ha)
  | release _ b ih =>
    rcases mem_free_of_release ha with rfl | ha
    · exact ⟨b, rfl⟩
    · exact ih ha
  | clear _ _ => cases ha

/-- A free instance is as good as new, if all of an instance is cleared. -/
theorem Reached.eq_fresh [Lawful α] (h : Reached p) (ha : a ∈ p.free) : a = Reusable.fresh := by
  obtain ⟨b, rfl⟩ := h.eq_reset ha
  exact Lawful.reset_eq b

/-- So is the instance that a pool hands out. -/
theorem Reached.acquire_eq_fresh [Lawful α] (h : Reached p) : p.acquire.1 = Reusable.fresh := by
  unfold Pool.acquire
  split
  · next a free hfree =>
    have hmem : a ∈ p.free := hfree ▸ List.mem_cons_self
    exact h.eq_fresh hmem
  · rfl

end Folio.Pool
