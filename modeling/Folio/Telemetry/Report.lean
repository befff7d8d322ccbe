/-!
What the parts of a site report while they work: log events, counter increments and timings.
-/
namespace Folio

/-- Severities, the gravest first. -/
inductive Level where
  | error
  | warn
  | info
  | debug
  | trace
  deriving DecidableEq, Repr

def Level.name : Level → String
  | .error => "ERROR"
  | .warn => "WARN"
  | .info => "INFO"
  | .debug => "DEBUG"
  | .trace => "TRACE"

/-- The rank of a severity; the gravest has the least. -/
def Level.rank : Level → Nat
  | .error => 0
  | .warn => 1
  | .info => 2
  | .debug => 3
  | .trace => 4

/-- A log event with its named fields. -/
structure Event where
  level : Level
  message : String
  fields : List (String × String) := []
  deriving DecidableEq, Repr

/-- Something that happened, as the part where it happened tells it. -/
inductive Report where
  | event (e : Event)
  | count (metric : String) (amount : Nat)
  | timing (metric : String)
  deriving DecidableEq, Repr

namespace Report

def log (level : Level) (message : String) (fields : List (String × String) := []) : Report :=
  .event ⟨level, message, fields⟩

/-- One more of a metric. -/
def tick (metric : String) : Report := .count metric 1

end Report

/-! The names of metrics. -/
namespace Metric

def cacheHit : String := "cache.hit"

def cacheMiss : String := "cache.miss"

def cacheEviction : String := "cache.eviction"

def flightJoined : String := "cache.inflight.joined"

def renderCount : String := "render.count"

def renderDuration : String := "render.duration"

def buildFailed : String := "build.failed"

end Metric

end Folio
