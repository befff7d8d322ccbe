import Folio.Telemetry.Report

/-!
Pools of instances that are cleared and used again. A pool never keeps more than its capacity; what
is given back beyond that is dropped.
-/
namespace Folio

universe u

/-- A type whose instances can be cleared for another use. -/
class Reusable (α : Type u) where
  fresh : α
  reset : α → α

variable {α : Type u}

namespace Pool

/-- The metrics that a pool reports. -/
structure Names where
  created : String
  reused : String
  released : String
  discarded : String
  deriving DecidableEq, Repr

def nodeNames : Names :=
  ⟨"pool.node.created", "pool.node.reused", "pool.node.released", "pool.node.discarded"⟩

def contextNames : Names :=
  ⟨"pool.context.created", "pool.context.reused", "pool.context.released",
    "pool.context.discarded"⟩

/-- Counters of a pool at one moment. -/
structure Statistics where
  free : Nat
  capacity : Nat
  created : Nat
  reused : Nat
  released : Nat
  discarded : Nat
  deriving DecidableEq, Repr

end Pool

/-- Free instances, the one released last first. Their number is kept, for a pool is asked at each
release whether it has room. -/
structure Pool (α : Type u) where
  capacity : Nat
  names : Pool.Names
  free : List α := []
  size : Nat := free.length
  size_eq : size = free.length := by rfl
  created : Nat := 0
  reused : Nat := 0
  released : Nat := 0
  discarded : Nat := 0

namespace Pool

variable (p : Pool α)

def statistics : Statistics :=
  ⟨p.size, p.capacity, p.created, p.reused, p.released, p.discarded⟩

/-- Takes a free instance, or makes one if there is none. -/
def acquire [Reusable α] : α × Pool α × List Report :=
  match h : p.free with
  | a :: free =>
    let p' : Pool α :=
      { p with
        free
        size := p.size - 1
        size_eq := by simp [p.size_eq, h]
        reused := p.reused + 1 }
    (a, p', [.tick p.names.reused])
  | [] => (Reusable.fresh, { p with created := p.created + 1 }, [.tick p.names.created])

/-- Clears an instance and takes it back; tells whether there was room for it. -/
def release [Reusable α] (a : α) : Bool × Pool α × List Report :=
  if p.capacity ≤ p.size then
    (false, { p with discarded := p.discarded + 1 }, [.tick p.names.discarded])
  else
    let p' : Pool α :=
      { p with
        free := Reusable.reset a :: p.free
        size := p.size + 1
        size_eq := by simp [p.size_eq]
        released := p.released + 1 }
    (true, p', [.tick p.names.released])

/-- Drops the free instances and zeroes the counters. -/
def clear : Pool α := { capacity := p.capacity, names := p.names }

/-- A short description. -/
def summary : String :=
  "ObjectPool \x7b free: " ++ toString p.size ++ ", capacity: " ++ toString p.capacity
    ++ " \x7d"

end Pool

end Folio
