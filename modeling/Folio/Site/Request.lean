import Folio.Flight.Crash
import Folio.Site.Document

/-!
Requests for pages by key. A page that is cached is returned at once; otherwise its builder runs, at
most once per key at any time, and callers for the same key share the outcome.
-/
namespace Folio

/-- Why a request has no page. -/
inductive RenderFault where
  | structural (fault : StructureFault)
  | build (key message : String)
  | aborted (key reason : String)
  deriving DecidableEq, Repr

def RenderFault.message : RenderFault → String
  | .structural fault => fault.message
  | .build key message => s!"Builder for '{key}' failed: {message}"
  | .aborted key reason => s!"Render for '{key}' did not complete: {reason}"

/-- What a builder comes to. -/
inductive Built where
  | document (d : Document)
  | failure (message : String)
  | crash (message : String)

/-- A builder makes a document on a site. -/
abbrev Builder := Site → Built × Site

/-- A request in progress: refused, answered, or waiting for a computation. -/
inductive Load where
  | refused (fault : RenderFault)
  | answered (page : String)
  | waiting (computation : Nat)

/-- A computation that was started and has not run yet. -/
structure Pending where
  number : Nat
  key : String
  builder : Builder

namespace Site

variable (s : Site)

/-- A request's first steps: both lookups, and the start of a computation if none is under way. -/
def beginLoad (key : String) (builder : Builder) : Load × List Pending × Site :=
  if Text.isBlankText key then
    (.refused (.structural (.malformedRoute "cache key must not be empty")), [], s)
  else
    match s.onCache (.get key) with
    | (.value (some page), s) => (.answered page, [], s)
    | (_, s) =>
      let (entry, flights, rs) := Flight.enter key s.cache s.flights
      let s := { s with flights }.report rs
      match entry with
      | .answered page => (.answered page, [], s)
      | .joined n => (.waiting n, [], s)
      | .started n => (.waiting n, [⟨n, key, builder⟩], s)

/-- Builds and renders the page of a computation. -/
def compute (key : String) (builder : Builder) : Flight.Outcome String RenderFault × Site :=
  match builder s with
  | (.document d, s) =>
    let (page, d, s) := s.renderUncached d
    (.value page, s.drop d)
  | (.failure message, s) =>
    (.failure (.build key message), s.report [.tick Metric.buildFailed])
  | (.crash message, s) => (.crash (Flight.crashReason message), s)

/-- The page or the fault that callers get. -/
def published (key : String) (outcome : Flight.Outcome String RenderFault) :
    Except RenderFault String :=
  match outcome.result key with
  | .ok page => .ok page
  | .error (.failed fault) => .error fault
  | .error (.aborted key reason) => .error (.aborted key reason)

/-- Runs a computation to its end. -/
def finish (p : Pending) : Except RenderFault String × Site :=
  let (outcome, s) := s.compute p.key p.builder
  let (cache, flights, rs) := Flight.complete p.key outcome s.cache s.flights
  (published p.key outcome, { s with cache, flights }.report rs)

/-- Runs computations one after another and lists their results by number. -/
def finishAll : List Pending → Site → List (Nat × Except RenderFault String) × Site
  | [], s => ([], s)
  | p :: ps, s =>
    let (result, s) := s.finish p
    let (results, s) := finishAll ps s
    ((p.number, result) :: results, s)

/-- What a request gets once the computations have run. -/
def outcomeOf (results : List (Nat × Except RenderFault String)) : Load → Except RenderFault String
  | .refused fault => .error fault
  | .answered page => .ok page
  | .waiting n =>
    match Entries.get? n results with
    | some r => r
    | none => .error (.aborted "" "")

/-- The first steps of requests, in order. `onLoad` is told of each. -/
def beginAll (onLoad : String → Load → List Report) :
    List (String × Builder) → Site → List Load × List Pending × Site
  | [], s => ([], [], s)
  | (key, builder) :: items, s =>
    let (load, pending, s) := s.beginLoad key builder
    let (loads, more, s) := beginAll onLoad items (s.report (onLoad key load))
    (load :: loads, pending ++ more, s)

/-- Requests that are made together: each takes its first steps in order, then the builds that were
started run one after another. -/
def requestAll (items : List (String × Builder)) : List (Except RenderFault String) × Site :=
  let (loads, pending, s) := beginAll (fun _ _ => []) items s
  let (results, s) := finishAll pending s
  (loads.map (outcomeOf results), s)

/-- A single request. -/
def request (key : String) (builder : Builder) : Except RenderFault String × Site :=
  let (load, pending, s) := s.beginLoad key builder
  let (results, s) := finishAll pending s
  (outcomeOf results load, s)

end Site

/-- The report on one route of a warm-up. -/
structure WarmupReport where
  key : String
  success : Bool
  /-- The length of the page in bytes. -/
  size : Option Nat
  error : Option String
  deriving DecidableEq, Repr

/-- A report as JSON; what does not apply is left out. -/
def WarmupReport.json (r : WarmupReport) : Json :=
  .object ([("key", .string r.key), ("success", .bool r.success)]
    ++ (match r.size with
      | some n => [("size", .ofNat n)]
      | none => [])
    ++ (match r.error with
      | some message => [("error", .string message)]
      | none => []))

/-- A short description of a route. -/
def routeSummary (key : String) : String :=
  "WarmupRoute \x7b key: " ++ Text.quoted key ++ " \x7d"

namespace Site

def warmupReport (key : String) : Except RenderFault String → WarmupReport
  | .ok page => ⟨key, true, some page.utf8ByteSize, none⟩
  | .error fault => ⟨key, false, none, some fault.message⟩

/-- The warning about a route that failed. -/
def routeWarning (key : String) (fault : RenderFault) : Report :=
  .log .warn "warmup route failed" [("key", key), ("error", fault.message)]

/-- Warns of a route that is refused at once. -/
def warnRefused (key : String) : Load → List Report
  | .refused fault => [routeWarning key fault]
  | _ => []

/-- The results of computations by number. -/
abbrev Results := List (Nat × Except RenderFault String)

/-- The warning about a route that waited for the computation `n`, given what that came to. -/
def lateWarning (n : Nat) (result : Except RenderFault String) : String × Load → List Report
  | (key, .waiting m) =>
    match result with
    | .error fault => if m = n then [routeWarning key fault] else []
    | .ok _ => []
  | _ => []

/-- Up to this many routes are looked at in their own order whenever some computations have ended.
More are looked at as they are woken: by computation, and those of one computation in their order.
-/
def fewRoutes : Nat := 30

/-- The warnings about routes whose computations have ended. -/
def lateWarnings (routes : List (String × Load)) (results : Results) : List Report :=
  if routes.length ≤ fewRoutes then
    routes.flatMap fun route => results.flatMap fun (n, result) => lateWarning n result route
  else results.flatMap fun (n, result) => routes.flatMap (lateWarning n result)

/-- So many computations run before a caller that waits for them gets its turn. -/
def turnLength : Nat := 61

/-- A turn takes at least one of the computations that are left. -/
theorem length_drop_turnLength {pending : List Pending} (h : pending.isEmpty ≠ true) :
    (pending.drop turnLength).length < pending.length := by
  cases pending with
  | nil => exact (h rfl).elim
  | cons p ps =>
    rw [List.length_drop, List.length_cons, turnLength]
    omega

/-- Computations are gone through turn by turn. -/
@[elab_as_elim]
theorem turn_induction {motive : List Pending → Prop} (nil : motive [])
    (turn : ∀ pending, pending.isEmpty ≠ true → motive (pending.drop turnLength) → motive pending)
    (pending : List Pending) : motive pending := by
  induction hlength : pending.length using Nat.strongRecOn generalizing pending with
  | ind n ih =>
  subst hlength
  cases hpending : pending with
  | nil => exact nil
  | cons p ps =>
    rw [← hpending]
    have hsome : pending.isEmpty ≠ true := by simp [hpending]
    exact turn pending hsome (ih _ (length_drop_turnLength hsome) _ rfl)

/-- Runs computations turn by turn; after each turn the routes that failed in it are warned of. -/
def finishTurns (routes : List (String × Load)) (pending : List Pending) (s : Site) :
    Results × Site :=
  if pending.isEmpty then ([], s)
  else
    let (results, s) := finishAll (pending.take turnLength) s
    let (more, s) :=
      finishTurns routes (pending.drop turnLength) (s.report (lateWarnings routes results))
    (results ++ more, s)
termination_by pending.length
decreasing_by exact length_drop_turnLength ‹_›

@[simp] theorem finishTurns_nil (routes : List (String × Load)) (s : Site) :
    finishTurns routes [] s = ([], s) := by
  rw [finishTurns, List.isEmpty_nil, if_pos rfl]

/-- Requests every route and reports on each, in their order. A route that fails does not touch the
others. -/
def warmup (s : Site) (routes : List (String × Builder)) : List WarmupReport × Site :=
  let (loads, pending, s) := beginAll warnRefused routes s
  let loaded := (routes.map (·.1)).zip loads
  let (results, s) := finishTurns loaded pending s
  let reports := loaded.map fun (key, load) => warmupReport key (outcomeOf results load)
  let failed := (reports.filter (!·.success)).length
  (reports, s.report [.log .info "cache warmup finished"
    [("routes", toString reports.length), ("failed", toString failed)]])

end Site

end Folio
