import Mathlib.Algebra.GroupWithZero.Nat
import Folio.Proofs.Entries
import Folio.Telemetry.Meter

/-! How much reports say of a metric, and the counter of a meter that took them in. -/
namespace Folio

namespace Report

/-- By how much a report raises a metric. -/
def amount (metric : String) : Report → Nat
  | .count metric' n => if metric' = metric then n else 0
  | .event _ | .timing _ => 0

/-- By how much reports raise a metric altogether. -/
def total (metric : String) (rs : List Report) : Nat := (rs.map (amount metric)).sum

variable {metric metric' : String} {rs : List Report}

@[simp] theorem total_nil : total metric [] = 0 := rfl

@[simp] theorem total_append (rs rs' : List Report) :
    total metric (rs ++ rs') = total metric rs + total metric rs' := by
  rw [total, List.map_append, List.sum_append, total, total]

@[simp] theorem total_log (level : Level) (message : String) (fields : List (String × String)) :
    total metric (.log level message fields :: rs) = total metric rs := by
  rw [total, List.map_cons, List.sum_cons, total]
  exact Nat.zero_add _

@[simp] theorem total_tick :
    total metric (.tick metric' :: rs) = (if metric' = metric then 1 else 0) + total metric rs :=
  rfl

end Report

namespace Meter

theorem count_increment (c : Counters) (metric metric' : String) (n : Nat) :
    (c.increment metric n).count metric' =
      if metric' = metric then (c.count metric + n) % UInt64.size else c.count metric' := by
  unfold Counters.increment Counters.count Ordered.get? Ordered.insert
  split
  · next heq => rw [heq, Entries.get?_put_self, Option.getD_some]
  · next hne => rw [Entries.get?_put_of_ne hne]

variable {m : Meter} {metric : String}

/-- A counter takes in what a report says of its metric, modulo its sixty-four bits. -/
theorem count_take (h : m.sink = .counting) (hlt : m.counters.count metric < UInt64.size)
    (r : Report) : (m.take r).counters.count metric =
      (m.counters.count metric + r.amount metric) % UInt64.size := by
  obtain ⟨sink, counters, log⟩ := m
  obtain rfl : sink = .counting := h
  cases r with
  | event _ | timing _ => exact (Nat.mod_eq_of_lt hlt).symm
  | count metric' n =>
    simp only [take, count_increment, Report.amount]
    by_cases heq : metric = metric'
    · rw [if_pos heq, if_pos heq.symm, heq]
    · rw [if_neg heq, if_neg (Ne.symm heq), Nat.add_zero, Nat.mod_eq_of_lt hlt]

theorem sink_take (m : Meter) (r : Report) : (m.take r).sink = m.sink := by
  obtain ⟨sink, counters, log⟩ := m
  cases r <;> cases sink <;> rfl

theorem count_takeAll (h : m.sink = .counting) (hlt : m.counters.count metric < UInt64.size)
    (rs : List Report) : (m.takeAll rs).counters.count metric =
      (m.counters.count metric + Report.total metric rs) % UInt64.size := by
  induction rs generalizing m with
  | nil => exact (Nat.mod_eq_of_lt hlt).symm
  | cons r rs ih =>
    have hr := count_take h hlt r
    have hsize : (m.counters.count metric + r.amount metric) % UInt64.size < UInt64.size :=
      Nat.mod_lt _ (by decide)
    rw [takeAll, List.foldl_cons, ← takeAll, ih ((sink_take m r).trans h) (hr ▸ hsize), hr,
      Nat.mod_add_mod, Nat.add_assoc]
    rfl

/-- A new counter holds what was reported of its metric, modulo its sixty-four bits. -/
theorem count_new (metric : String) (rs : List Report) :
    (({ sink := .counting } : Meter).takeAll rs).counters.count metric =
      Report.total metric rs % UInt64.size := by
  have hzero : ({ sink := .counting } : Meter).counters.count metric = 0 := rfl
  rw [count_takeAll rfl (hzero ▸ by decide), hzero, Nat.zero_add]

end Meter

end Folio
