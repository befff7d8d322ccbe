import Folio.Cache.Lru
import Folio.Decimal.Binary
import Folio.Telemetry.Report

/-!
The response cache: a store of rendered pages that counts its hits, misses and evictions.
-/
namespace Folio

universe u

variable {ν : Type u}

structure Cache (ν : Type u) where
  store : Lru ν
  hits : Nat := 0
  misses : Nat := 0
  evictions : Nat := 0
  deriving Repr

namespace Cache

/-- Counters of a cache at one moment. -/
structure Statistics where
  hits : Nat
  misses : Nat
  evictions : Nat
  total : Nat
  entries : Nat
  capacity : Nat
  deriving DecidableEq, Repr

/-- A share of requests as a double; zero when there was none. -/
def rate (part total : Nat) : Decimal.Binary :=
  if total = 0 then ⟨false, 0⟩
  else
    let f := Decimal.double
    ⟨false, f.div (f.nearest part 1) (f.nearest total 1)⟩

def Statistics.hitRate (s : Statistics) : Decimal.Binary := rate s.hits s.total

def Statistics.missRate (s : Statistics) : Decimal.Binary := rate s.misses s.total

def ofCapacity (capacity : Nat) : Cache ν := { store := { capacity } }

variable (c : Cache ν)

def size : Nat := c.store.size

def isEmpty : Bool := c.store.isEmpty

def capacity : Nat := c.store.capacity

def keys : List String := c.store.keys

def statistics : Statistics :=
  ⟨c.hits, c.misses, c.evictions, c.hits + c.misses, c.size, c.capacity⟩

/-- Looks a key up, counts the outcome and marks the entry as used. -/
def get (key : String) : Option ν × Cache ν × List Report :=
  match c.store.get key with
  | (some value, store) =>
    (some value, { c with store, hits := c.hits + 1 },
      [.tick Metric.cacheHit, .log .trace "cache hit" [("key", key)]])
  | (none, store) =>
    (none, { c with store, misses := c.misses + 1 },
      [.tick Metric.cacheMiss, .log .trace "cache miss" [("key", key)]])

/-- Looks a key up without a trace. -/
def peek (key : String) : Option ν := c.store.peek key

def contains (key : String) : Bool := (c.peek key).isSome

/-- Stores a value and returns the key that was evicted for it. -/
def set (key : String) (value : ν) : Option String × Cache ν × List Report :=
  match c.store.insert key value with
  | (some evicted, store) =>
    (some evicted, { c with store, evictions := c.evictions + 1 },
      [.tick Metric.cacheEviction,
        .log .debug "evicted least recently used response" [("key", evicted)]])
  | (none, store) => (none, { c with store }, [])

def delete (key : String) : Bool × Cache ν :=
  let (found, store) := c.store.remove key
  (found, { c with store })

/-- Drops all entries and keeps the counters. -/
def clear : Cache ν := { c with store := c.store.clear }

/-- Drops all entries and zeroes the counters. -/
def reset : Cache ν := { store := c.store.clear }

/-- An operation of a client. -/
inductive Operation (ν : Type u) where
  | get (key : String)
  | peek (key : String)
  | set (key : String) (value : ν)
  | delete (key : String)
  | contains (key : String)
  | clear
  | reset
  deriving Repr

/-- What an operation returns. -/
inductive Reply (ν : Type u) where
  | value (v : Option ν)
  | evicted (key : Option String)
  | flag (b : Bool)
  | done
  deriving Repr

/-- Performs an operation. -/
def perform : Operation ν → Reply ν × Cache ν × List Report
  | .get key => let (v, c, rs) := c.get key; (.value v, c, rs)
  | .peek key => (.value (c.peek key), c, [])
  | .set key value => let (k, c, rs) := c.set key value; (.evicted k, c, rs)
  | .delete key => let (b, c) := c.delete key; (.flag b, c, [])
  | .contains key => (.flag (c.contains key), c, [])
  | .clear => (.done, c.clear, [])
  | .reset => (.done, c.reset, [])

/-- A short description. -/
def summary : String :=
  "ResponseCache \x7b len: " ++ toString c.size ++ ", capacity: " ++ toString c.capacity ++ " \x7d"

end Cache

end Folio
