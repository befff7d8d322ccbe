import Folio.Pool.Recycling
import Folio.Proofs.Pool.Reached
import Folio.Proofs.Telemetry.Counted
import Folio.Proofs.Telemetry.Overlooked

/-! What is seen of the pools: the metrics that they report, and nothing of the instances they keep.
Meters are compared without those metrics. -/
namespace Folio

universe u

namespace Pool

/-- The metrics of a pool. -/
def Names.all (names : Names) : List String :=
  [names.created, names.reused, names.released, names.discarded]

/-- The metrics of all pools. -/
def metrics : List String := nodeNames.all ++ contextNames.all

end Pool

/-- Holds of the reports of a pool. -/
def Report.IsPooling (r : Report) : Prop := ∃ metric ∈ Pool.metrics, r = .tick metric

instance : DecidablePred Report.IsPooling := fun r =>
  inferInstanceAs (Decidable (∃ metric ∈ Pool.metrics, r = .tick metric))

/-- Reports about pools say nothing of other metrics. -/
theorem Report.total_of_isPooling {metric : String} {rs : List Report} (h : ∀ r ∈ rs, r.IsPooling)
    (hmetric : metric ∉ Pool.metrics) : Report.total metric rs = 0 := by
  induction rs with
  | nil => rfl
  | cons r rs ih =>
    rw [List.forall_mem_cons] at h
    obtain ⟨⟨metric', hmem, rfl⟩, hrs⟩ := h
    have hne : metric' ≠ metric := by
      rintro rfl
      exact hmetric hmem
    rw [Report.total_tick, if_neg hne, ih hrs]

namespace Pool

variable {α : Type u} [Reusable α]

/-- A pool that its operations alone have changed and that reports under names of its own. -/
structure Kept (names : Names) (p : Pool α) : Prop where
  reached : Reached p
  names_eq : p.names = names

variable {names : Names} {p : Pool α}

theorem kept_empty (capacity : Nat) (names : Names) : Kept names ({ capacity, names } : Pool α) :=
  ⟨.empty capacity names, rfl⟩

theorem Kept.clear (h : Kept names p) : Kept names p.clear := ⟨h.reached.clear, h.names_eq⟩

theorem names_acquire (p : Pool α) : p.acquire.2.1.names = p.names := by
  unfold acquire
  split <;> rfl

theorem names_release (p : Pool α) (a : α) : (p.release a).2.1.names = p.names := by
  unfold release
  split <;> rfl

theorem Kept.acquire (h : Kept names p) : Kept names p.acquire.2.1 :=
  ⟨h.reached.acquire, (names_acquire p).trans h.names_eq⟩

theorem Kept.release (h : Kept names p) (a : α) : Kept names (p.release a).2.1 :=
  ⟨h.reached.release a, (names_release p a).trans h.names_eq⟩

theorem Kept.isPooling_acquire (h : Kept names p) (hnames : names.all ⊆ metrics) :
    ∀ r ∈ p.acquire.2.2, r.IsPooling := by
  have hall : ∀ metric ∈ p.names.all, metric ∈ metrics := by
    rw [h.names_eq]
    exact fun _ hmetric => hnames hmetric
  unfold Pool.acquire
  split
  · exact List.forall_mem_singleton.2 ⟨p.names.reused, hall _ (by simp [Names.all]), rfl⟩
  · exact List.forall_mem_singleton.2 ⟨p.names.created, hall _ (by simp [Names.all]), rfl⟩

theorem Kept.isPooling_release (h : Kept names p) (hnames : names.all ⊆ metrics) (a : α) :
    ∀ r ∈ (p.release a).2.2, r.IsPooling := by
  have hall : ∀ metric ∈ p.names.all, metric ∈ metrics := by
    rw [h.names_eq]
    exact fun _ hmetric => hnames hmetric
  unfold Pool.release
  split
  · exact List.forall_mem_singleton.2 ⟨p.names.discarded, hall _ (by simp [Names.all]), rfl⟩
  · exact List.forall_mem_singleton.2 ⟨p.names.released, hall _ (by simp [Names.all]), rfl⟩

/-- Trees go back to a pool by releases alone, and what is reported of them is about the pool. -/
structure Return.Kept (r : Return) : Prop where
  pool : Pool.Kept nodeNames r.pool
  isPooling : ∀ report ∈ r.reports, report.IsPooling

theorem Return.Kept.take {r : Return} (h : r.Kept) (e : Element) : (r.take e).Kept := by
  refine ⟨h.pool.release _, fun report hreport => ?_⟩
  rcases List.mem_reverseAux.1 hreport with hreport | hreport
  · exact h.pool.isPooling_release (List.subset_append_left ..) _ _ hreport
  · exact h.isPooling _ hreport

mutual

theorem Return.Kept.recycleChild {r : Return} (h : r.Kept) (c : Child) :
    (Pool.recycleChild r c).Kept := by
  match c with
  | .text _ | .markup _ => exact h
  | .element e children => exact (h.recycleChildren children).take e

theorem Return.Kept.recycleChildren {r : Return} (h : r.Kept) (cs : List Child) :
    (Pool.recycleChildren r cs).Kept := by
  match cs with
  | [] => exact h
  | c :: cs => exact (h.recycleChild c).recycleChildren cs

end

theorem Kept.recycleAll {p : Pool Node} (h : Kept nodeNames p) (cs : List Child) :
    Kept nodeNames (p.recycleAll cs).1 ∧ ∀ r ∈ (p.recycleAll cs).2, r.IsPooling := by
  have hreturn : (⟨p, []⟩ : Return).Kept := ⟨h, List.forall_mem_nil _⟩
  have hall := hreturn.recycleChildren cs
  exact ⟨hall.pool, fun r hr => hall.isPooling r (List.mem_reverse.1 hr)⟩

end Pool

/-! Meters -/

/-- Whether an event tells of a metric of a pool. -/
def Event.isPooling (e : Event) : Bool :=
  e.message == "counter" && e.fields.any fun f => f.1 == "metric" && Pool.metrics.contains f.2

/-- What an event shows: nothing if it tells of a metric of a pool, else all but the capacity of a
pool. -/
def Event.shown? (e : Event) : Option Event :=
  if e.isPooling then none
  else some { e with fields := e.fields.filter (·.1 != "pool_capacity") }

namespace Meter

/-- What a log shows besides the work of pools, the newest event first. -/
def shown (m : Meter) : List Event := m.log.filterMap Event.shown?

/-- Meters that differ in what they say about pools at most. -/
structure Alike (m m' : Meter) : Prop where
  sink : m'.sink = m.sink
  count : ∀ metric, metric ∉ Pool.metrics → m'.counters.count metric = m.counters.count metric
  timings : m'.counters.timings = m.counters.timings
  shown : m'.shown = m.shown

variable {m m' : Meter}

theorem Alike.refl (m : Meter) : m.Alike m := ⟨rfl, fun _ _ => rfl, rfl, rfl⟩

/-- Events may be logged that show the same. -/
theorem Alike.log (h : m.Alike m') {e e' : Event} (he : e'.shown? = e.shown?) :
    ({ m with log := e :: m.log } : Meter).Alike { m' with log := e' :: m'.log } := by
  have hshown : m'.log.filterMap Event.shown? = m.log.filterMap Event.shown? := h.shown
  refine ⟨h.sink, h.count, h.timings, ?_⟩
  simp only [Meter.shown, List.filterMap_cons, he, hshown]

theorem Alike.take (h : m.Alike m') (r : Report) : (m.take r).Alike (m'.take r) := by
  obtain ⟨sink, counters, log⟩ := m
  obtain ⟨sink', counters', log'⟩ := m'
  obtain rfl : sink' = sink := h.sink
  cases r with
  | event e => exact h.log rfl
  | count metric n =>
    cases sink' with
    | silent => exact h
    | traced => exact h.log rfl
    | counting =>
      refine ⟨rfl, fun metric' hmetric' => ?_, h.timings, h.shown⟩
      simp only [Meter.take, count_increment]
      split
      · next heq => rw [h.count metric (heq ▸ hmetric')]
      · exact h.count metric' hmetric'
  | timing metric =>
    cases sink' with
    | silent => exact h
    | traced => exact h.log rfl
    | counting =>
      have htimings : counters'.timings = counters.timings := h.timings
      refine ⟨rfl, h.count, ?_, h.shown⟩
      simp only [Meter.take, Counters.time, Counters.timingCount, htimings]

/-- A report on a pool changes nothing that is compared. -/
theorem alike_take_of_isPooling {r : Report} (hr : r.IsPooling) (m : Meter) :
    m.Alike (m.take r) := by
  obtain ⟨metric, hmetric, rfl⟩ := hr
  obtain ⟨sink, counters, log⟩ := m
  cases sink with
  | silent => exact .refl _
  | counting =>
    refine ⟨rfl, fun metric' hmetric' => ?_, rfl, rfl⟩
    have hne : metric' ≠ metric := by
      rintro rfl
      exact hmetric' hmetric
    simp only [Report.tick, Meter.take, count_increment, if_neg hne]
  | traced =>
    have hhidden :
        Event.shown? ⟨.trace, "counter", [("metric", metric), ("by", toString 1)]⟩ = none := by
      simp [Event.shown?, Event.isPooling, hmetric]
    refine ⟨rfl, fun _ _ => rfl, rfl, ?_⟩
    exact List.filterMap_cons_none hhidden

/-- The comparison overlooks the reports of pools. -/
theorem overlooks_isPooling : Overlooks Alike Report.IsPooling where
  equivalence := by
    refine ⟨Alike.refl, fun h => ?_, fun h h' => ?_⟩
    · exact ⟨h.sink.symm, fun metric hmetric => (h.count metric hmetric).symm, h.timings.symm,
        h.shown.symm⟩
    · exact ⟨h'.sink.trans h.sink,
        fun metric hmetric => (h'.count metric hmetric).trans (h.count metric hmetric),
        h'.timings.trans h.timings, h'.shown.trans h.shown⟩
  take h r := h.take r
  overlook hr m := alike_take_of_isPooling hr m

end Meter

end Folio
