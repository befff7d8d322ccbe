import Folio.Ordered
import Folio.Telemetry.Report

/-!
Where reports go: events to a log, and metrics to nowhere, to counters, or to the log as well.
-/
namespace Folio

/-- What becomes of metrics. -/
inductive Sink where
  | silent
  | counting
  | traced
  deriving DecidableEq, Repr

/-- Counters of sixty-four bits and numbers of timings by name. -/
structure Counters where
  counts : Ordered String Nat := .empty
  timings : Ordered String Nat := .empty

namespace Counters

variable (c : Counters)

/-- A counter that was never incremented is zero. -/
def count (metric : String) : Nat := (c.counts.get? metric).getD 0

def timingCount (metric : String) : Nat := (c.timings.get? metric).getD 0

def increment (metric : String) (n : Nat) : Counters :=
  { c with counts := c.counts.insert metric ((c.count metric + n) % UInt64.size) }

def time (metric : String) : Counters :=
  { c with timings := c.timings.insert metric (c.timingCount metric + 1) }

end Counters

/-- A log and a sink. The newest event comes first. -/
structure Meter where
  sink : Sink
  counters : Counters := {}
  log : List Event := []

namespace Meter

/-- Takes in one report. -/
def take (m : Meter) : Report → Meter
  | .event e => { m with log := e :: m.log }
  | .count metric n =>
    match m.sink with
    | .silent => m
    | .counting => { m with counters := m.counters.increment metric n }
    | .traced =>
      { m with log := ⟨.trace, "counter", [("metric", metric), ("by", toString n)]⟩ :: m.log }
  | .timing metric =>
    match m.sink with
    | .silent => m
    | .counting => { m with counters := m.counters.time metric }
    | .traced => { m with log := ⟨.trace, "timing", [("metric", metric)]⟩ :: m.log }

/-- Takes in reports in order. -/
def takeAll (m : Meter) (rs : List Report) : Meter := rs.foldl take m

/-- The events since the log was last emptied, oldest first, and the meter with an empty log. -/
def drain (m : Meter) : List Event × Meter := (m.log.reverse, { m with log := [] })

end Meter

end Folio
