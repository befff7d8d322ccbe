import Folio.Telemetry.Meter

/-! Meters compared without some of what they were told. A comparison that overlooks the reports of a
kind holds between meters that took in the same reports up to that kind. -/
namespace Folio.Meter

/-- An equivalence of meters that further reports preserve, and that overlooks those of a kind. -/
structure Overlooks (R : Meter → Meter → Prop) (p : Report → Prop) : Prop where
  equivalence : Equivalence R
  take : ∀ {m m'}, R m m' → ∀ r, R (m.take r) (m'.take r)
  overlook : ∀ {r}, p r → ∀ m, R m (m.take r)

namespace Overlooks

variable {R : Meter → Meter → Prop} {p : Report → Prop} {m m' : Meter} {rs rs' : List Report}

theorem takeAll (hR : Overlooks R p) (h : R m m') (rs : List Report) :
    R (m.takeAll rs) (m'.takeAll rs) := by
  induction rs generalizing m m' with
  | nil => exact h
  | cons r rs ih => exact ih (hR.take h r)

variable [DecidablePred p]

/-- Reports may be left out if they are overlooked. -/
theorem takeAll_filter (hR : Overlooks R p) (m : Meter) (rs : List Report) :
    R (m.takeAll (rs.filter (¬ p ·))) (m.takeAll rs) := by
  induction rs generalizing m with
  | nil => exact hR.equivalence.refl m
  | cons r rs ih =>
    by_cases hr : p r
    · rw [List.filter_cons_of_neg (by simpa using hr)]
      have hskipped := hR.takeAll (hR.overlook hr m) (rs.filter (¬ p ·))
      exact hR.equivalence.trans hskipped (ih (m.take r))
    · rw [List.filter_cons_of_pos (by simpa using hr)]
      exact ih (m.take r)

/-- Meters stay related that take in the same reports, those apart that are overlooked. -/
theorem takeAll_of_filter_eq (hR : Overlooks R p) (h : R m m')
    (hrs : rs'.filter (¬ p ·) = rs.filter (¬ p ·)) : R (m.takeAll rs) (m'.takeAll rs') := by
  have hleft := hR.equivalence.symm (hR.takeAll_filter m rs)
  have hright := hR.takeAll_filter m' rs'
  rw [hrs] at hright
  exact hR.equivalence.trans hleft (hR.equivalence.trans (hR.takeAll h _) hright)

/-- Reports that are overlooked keep meters related, whatever they are. -/
theorem takeAll_of_forall (hR : Overlooks R p) (h : R m m') (hrs : ∀ r ∈ rs, p r)
    (hrs' : ∀ r ∈ rs', p r) : R (m.takeAll rs) (m'.takeAll rs') := by
  have hnone : ∀ {rs : List Report}, (∀ r ∈ rs, p r) → rs.filter (¬ p ·) = [] := by
    intro rs hall
    exact List.filter_eq_nil_iff.2 fun r hr => by simpa using hall r hr
  exact hR.takeAll_of_filter_eq h (by rw [hnone hrs, hnone hrs'])

end Overlooks

end Folio.Meter
