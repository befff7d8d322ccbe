import Folio.Page.Node

/-!
Giving whole trees back to a pool: children before their parent, each element once.
-/
namespace Folio.Pool

/-- A pool that takes nodes back, and what it reports, the newest first. -/
structure Return where
  pool : Pool Node
  reports : List Report := []

/-- Takes one element back, without its children. -/
def Return.take (r : Return) (e : Element) : Return :=
  let (_, pool, rs) := r.pool.release ({ toElement := e } : Node)
  ⟨pool, rs.reverseAux r.reports⟩

mutual

/-- Gives the elements of a child back. -/
def recycleChild (r : Return) : Child → Return
  | .text _ => r
  | .markup _ => r
  | .element e children => (recycleChildren r children).take e

def recycleChildren (r : Return) : List Child → Return
  | [] => r
  | c :: cs => recycleChildren (recycleChild r c) cs

end

/-- Gives the elements of children back, in order. -/
def recycleAll (p : Pool Node) (cs : List Child) : Pool Node × List Report :=
  let r := recycleChildren ⟨p, []⟩ cs
  (r.pool, r.reports.reverse)

/-- Gives a node and all elements below it back. -/
def recycle (p : Pool Node) (n : Node) : Pool Node × List Report := p.recycleAll [n.toChild]

end Folio.Pool
