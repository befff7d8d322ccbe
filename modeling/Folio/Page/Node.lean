import Folio.Client.Script
import Folio.Json.Value
import Folio.Markup.Tag
import Folio.Ordered
import Folio.Pool.Basic

/-!
The nodes of a page: elements with what they captured for hydration, and text. A node belongs to the
scope of the document that made it, or to none.
-/
namespace Folio

/-- The text of a node follows a key of the client state. -/
structure Binding where
  key : String
  template : Client.Script
  deriving DecidableEq, Repr

/-- An event listener as it was captured. -/
structure Listener where
  event : String
  nodeId : String
  /-- The id that takes the place of the placeholder, if the listener refers to an element. -/
  targetId : Option String
  handler : Client.Script
  deriving DecidableEq, Repr

/-- All of a node but its children. -/
structure Element where
  tag : String := ""
  attributes : Ordered String String := .empty
  style : String := ""
  state : Option Json := none
  computed : Option Client.Script := none
  bindings : List Binding := []
  listeners : List Listener := []
  scope : Option Nat := none
  deriving Inhabited

/-- A child of a node. -/
inductive Child where
  | element (e : Element) (children : List Child)
  | text (s : String)
  /-- Trusted markup, written as it is. -/
  | markup (s : String)
  deriving Inhabited

/-- An element with its children. -/
structure Node extends Element where
  children : List Child := []
  deriving Inhabited

namespace Element

variable (e : Element)

/-- The id, if there is one and it is not empty. -/
def id? : Option String := (e.attributes.get? "id").filter (!·.isEmpty)

/-- Whether the element itself captured something for hydration. -/
def captures : Bool :=
  e.state.isSome || e.computed.isSome || !e.bindings.isEmpty || !e.listeners.isEmpty

/-- Equality of two optional states. -/
def sameState : Option Json → Option Json → Bool
  | none, none => true
  | some v, some w => v.same w
  | _, _ => false

/-- Equality of elements: neither the order of attributes nor the scope matters. -/
def same (f : Element) : Bool :=
  e.tag == f.tag && e.attributes.agrees (· == ·) f.attributes && e.style == f.style
    && sameState e.state f.state && e.computed == f.computed && e.bindings == f.bindings
    && e.listeners == f.listeners

end Element

namespace Child

mutual

/-- Whether a child or anything below it captured something for hydration. -/
def needsHydration : Child → Bool
  | .element e children => e.captures || anyNeedsHydration children
  | .text _ => false
  | .markup _ => false

def anyNeedsHydration : List Child → Bool
  | [] => false
  | c :: cs => c.needsHydration || anyNeedsHydration cs

end

mutual

/-- Equality of children, as of elements. -/
def same : Child → Child → Bool
  | .element e cs, .element f ds => e.same f && sameAll cs ds
  | .text s, .text t => s == t
  | .markup s, .markup t => s == t
  | _, _ => false

def sameAll : List Child → List Child → Bool
  | [], [] => true
  | c :: cs, d :: ds => c.same d && sameAll cs ds
  | _, _ => false

end

end Child

namespace Node

variable (n : Node)

def toChild : Child := .element n.toElement n.children

def needsHydration : Bool := n.toChild.needsHydration

def same (m : Node) : Bool := n.toChild.same m.toChild

/-- A node without tag, content and scope, as a pool hands it out. -/
instance : Reusable Node where
  fresh := {}
  reset n := { n with
    tag := "", attributes := .empty, children := [], style := "", state := none, computed := none
    bindings := [], listeners := [], scope := none }

end Node

end Folio
