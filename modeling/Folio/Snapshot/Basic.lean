import Folio.Page.Head
import Folio.Page.Node
import Folio.Page.Scope

/-!
Snapshots: the structure of a document as plain data, with the sources of its client scripts for
inspection only.
-/
namespace Folio

structure BindingRecord where
  key : String
  source : String
  deriving DecidableEq, Repr

structure ListenerRecord where
  event : String
  nodeId : String
  targetId : Option String
  source : String
  deriving DecidableEq, Repr

/-- All of an element but its children. -/
structure ElementRecord where
  tag : String
  attributes : Ordered String String := .empty
  style : Option String := none
  state : Option Json := none
  bindings : List BindingRecord := []
  listeners : List ListenerRecord := []
  computed : Option String := none
  deriving Inhabited

/-- A node of a snapshot. -/
inductive Record where
  | element (e : ElementRecord) (children : List Record)
  | text (content : String)
  | markup (content : String)
  deriving Inhabited

structure Snapshot where
  head : Head := {}
  body : List Record := []
  states : Ordered String Json := .empty
  deriving Inhabited

/-- The record of an element. -/
def Element.record (e : Element) : ElementRecord where
  tag := e.tag
  attributes := e.attributes
  style := if e.style.isEmpty then none else some e.style
  state := e.state
  bindings := e.bindings.map fun b => ⟨b.key, b.template.source⟩
  listeners := e.listeners.map fun l => ⟨l.event, l.nodeId, l.targetId, l.handler.source⟩
  computed := e.computed.map (·.source)

namespace Child

mutual

/-- The record of a child. -/
def record : Child → Record
  | .element e children => .element e.record (records children)
  | .text s => .text s
  | .markup s => .markup s

def records : List Child → List Record
  | [] => []
  | c :: cs => c.record :: records cs

end

end Child

/-- The snapshot of a document's parts. -/
def Snapshot.take (head : Head) (body : List Node) (states : States) : Snapshot :=
  ⟨head, Child.records (body.map Node.toChild), states.toOrdered⟩

end Folio
