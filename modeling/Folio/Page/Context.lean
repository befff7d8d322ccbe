import Folio.Json.Value
import Folio.Pool.Basic
import Folio.Text.Blank
import Folio.Text.Search

/-!
What is collected besides markup while a page is rendered: scoped style rules and all that hydration
needs.
-/
namespace Folio

/-- A captured state. Its id is also its key on the client. -/
structure StateEntry where
  id : String
  value : Json
  tag : String

structure ComputedEntry where
  id : String
  source : String
  deriving DecidableEq, Repr

structure BindingEntry where
  nodeId : String
  key : String
  source : String
  deriving DecidableEq, Repr

/-- A listener. Placeholders in its source are not yet replaced. -/
structure ListenerEntry where
  event : String
  nodeId : String
  targetId : Option String
  source : String
  deriving DecidableEq, Repr

/-- Scoped rules in the order in which they were first seen. -/
structure RuleList where
  styles : List String := []
  /-- All of them as a set, in which they are looked up. -/
  seen : List String := []
  deriving Inhabited

namespace RuleList

variable (l : RuleList)

/-- Adds a rule unless it is blank or was seen before. -/
def add (rule : List Char) : RuleList :=
  let rule := String.ofList (Text.trim rule)
  if rule.isEmpty || l.seen.contains rule then l
  else { styles := l.styles ++ [rule], seen := rule :: l.seen }

/-- Adds the rules of a fragment. Cleaned values hold no brace, so every rule ends at one. -/
def addFragment (fragment : String) : RuleList :=
  (Text.splitAfter '\x7d' fragment.toList).foldl add l

end RuleList

/-- Data collected during one rendering, in document order; the listeners of a node follow those of
its descendants. -/
structure Context extends RuleList where
  states : List StateEntry := []
  computed : List ComputedEntry := []
  bindings : List BindingEntry := []
  listeners : List ListenerEntry := []
  deriving Inhabited

namespace Context

variable (c : Context)

def addStyle (fragment : String) : Context :=
  { c with toRuleList := c.toRuleList.addFragment fragment }

/-- Whether nothing needs hydration. -/
def isStatic : Bool :=
  c.states.isEmpty && c.computed.isEmpty && c.bindings.isEmpty && c.listeners.isEmpty

instance : Reusable Context where
  fresh := {}
  reset c :=
    { c with
      styles := [], seen := [], states := [], computed := [], bindings := [], listeners := [] }

end Context

end Folio
