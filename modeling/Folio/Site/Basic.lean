import Folio.Flight.Registry
import Folio.Page.Context
import Folio.Page.Node
import Folio.Page.Scope
import Folio.Telemetry.Meter

/-!
A site: all that the pages of one process share. It holds the settings, the source of ids, the pools
of nodes and contexts, the cache with its registry of computations, the states of each document by
the number of its scope, and the meter that takes in reports.
-/
namespace Folio

structure Site where
  settings : Settings
  ids : Ids
  /-- The number of the next run of ids. The site has a run, and each time that a node without scope
  is worked on, that takes another. -/
  nextRun : Nat
  nodes : Pool Node
  contexts : Pool Context
  cache : Cache String
  flights : Flight.Registry := {}
  stores : List States := []
  meter : Meter

namespace Site

variable (s : Site)

def report (rs : List Report) : Site := { s with meter := s.meter.takeAll rs }

/-- A new site with settings, whose first run of ids has the number `firstRun`. -/
def ofSettings (settings : Settings) (sink : Sink) (firstRun : Nat) : Site :=
  let site : Site :=
    { settings
      ids := .ofRun firstRun
      nextRun := firstRun + 1
      nodes := { capacity := settings.poolCapacity, names := Pool.nodeNames }
      contexts := { capacity := settings.contextPoolCapacity, names := Pool.contextNames }
      cache := .ofCapacity settings.cacheCapacity
      meter := { sink } }
  site.report [.log .debug "page runtime created"
    [("mode", settings.mode.title), ("pool_capacity", toString settings.poolCapacity),
      ("cache_capacity", toString settings.cacheCapacity)]]

/-- Empties the cache and both pools and zeroes their counters. Ids go on from where they were. -/
def reset : Site :=
  let s := { s with cache := s.cache.reset, nodes := s.nodes.clear, contexts := s.contexts.clear }
  s.report [.log .debug "page runtime reset"]

/-- The states of a scope. -/
def store (scope : Nat) : States := s.stores.getD scope .empty

def setStore (scope : Nat) (states : States) : Site :=
  { s with stores := s.stores.set scope states }

/-- Runs an operation in the scope of a node and takes over what it changed. A node without scope
gets a detached one, of which only the log is kept. The states of a scope are handed over and come
back changed. -/
def within {α : Type} (scope : Option Nat) (f : Scope → α × Scope) : α × Site :=
  match scope with
  | none =>
    let (a, sc) := f (.detached s.nextRun)
    (a, { s with nextRun := s.nextRun + 1 }.report (sc.log.reverse.map .event))
  | some n =>
    let states := s.store n
    let s := s.setStore n .empty
    let (a, sc) := f { settings := s.settings, ids := s.ids, states }
    (a, ({ s with ids := sc.ids }.setStore n sc.states).report (sc.log.reverse.map .event))

/-- Performs a cache operation. -/
def onCache (op : Cache.Operation String) : Cache.Reply String × Site :=
  let (reply, cache, rs) := s.cache.perform op
  (reply, { s with cache }.report rs)

/-- Takes a node from the pool. -/
def acquireNode : Node × Site :=
  let (n, nodes, rs) := s.nodes.acquire
  (n, { s with nodes }.report rs)

/-- Gives a single node back to the pool. -/
def releaseNode (n : Node) : Site :=
  let (_, nodes, rs) := s.nodes.release n
  { s with nodes }.report rs

end Site

end Folio
