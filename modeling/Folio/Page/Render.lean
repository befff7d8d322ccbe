import Folio.Page.Context
import Folio.Page.Head
import Folio.Page.Node
import Folio.Settings.Basic

/-!
Rendering of nodes: their markup, and what they leave in a context.
-/
namespace Folio

/-- The opening tag of an element. -/
def Element.openTag (e : Element) : String := "<" ++ e.tag ++ attributesText e.attributes ++ ">"

def Element.closeTag (e : Element) : String := "</" ++ e.tag ++ ">"

namespace Child

mutual

/-- Writes a child after `out`. A void element has no children and no closing tag. -/
def write (out : String) : Child → String
  | .text s => out ++ Text.escape s
  | .markup s => out ++ s
  | .element e children =>
    if Tag.isVoid e.tag then out ++ e.openTag
    else writeAll (out ++ e.openTag) children ++ e.closeTag

def writeAll (out : String) : List Child → String
  | [] => out
  | c :: cs => writeAll (c.write out) cs

end

end Child

/-- The markup of nodes in order. -/
def Node.htmlOf (nodes : List Node) : String := Child.writeAll "" (nodes.map Node.toChild)

/-- What one rendering has collected so far: all rules of the context, and the rest of what is new,
the newest first, with the events that were logged. -/
structure Harvest extends RuleList where
  states : List StateEntry := []
  computed : List ComputedEntry := []
  bindings : List BindingEntry := []
  listeners : List ListenerEntry := []
  log : List Event := []

namespace Harvest

variable (h : Harvest)

/-- Collects a captured state. -/
def addState (e : Element) (id : String) : Harvest :=
  match e.state with
  | some value => { h with states := ⟨id, value, e.tag⟩ :: h.states }
  | none => h

/-- Collects a computed script, unless the settings of the rendering refuse it. -/
def addComputed (settings : Settings) (e : Element) (id : String) : Harvest :=
  match e.computed with
  | none => h
  | some script =>
    match Client.check script.kind settings.limits script.source with
    | .ok _ => { h with computed := ⟨id, script.source⟩ :: h.computed }
    | .error fault =>
      if settings.isProduction then h
      else
        let event : Event :=
          ⟨.warn, "computed script dropped at render", [("id", id), ("error", fault.message)]⟩
        { h with log := event :: h.log }

/-- Collects bindings. -/
def addBindings (e : Element) (id : String) : Harvest :=
  let entries := e.bindings.map fun b => (⟨id, b.key, b.template.source⟩ : BindingEntry)
  { h with bindings := entries.reverse ++ h.bindings }

/-- Collects what belongs to an element before its children: its style and, under its id, the state,
the computed script and the bindings. -/
def enter (settings : Settings) (e : Element) : Harvest :=
  let h := { h with toRuleList := h.toRuleList.addFragment e.style }
  match e.id? with
  | some id => ((h.addState e id).addComputed settings e id).addBindings e id
  | none => h

/-- Collects the listeners of an element, after its children. -/
def leave (e : Element) : Harvest :=
  let entries := e.listeners.map fun l =>
    (⟨l.event, l.nodeId, l.targetId, l.handler.source⟩ : ListenerEntry)
  { h with listeners := entries.reverse ++ h.listeners }

/-- A context with what was collected for it. -/
def into (c : Context) : Context where
  toRuleList := h.toRuleList
  states := c.states ++ h.states.reverse
  computed := c.computed ++ h.computed.reverse
  bindings := c.bindings ++ h.bindings.reverse
  listeners := c.listeners ++ h.listeners.reverse

mutual

/-- Collects from a child and all that is rendered below it. -/
def visit (settings : Settings) (h : Harvest) : Child → Harvest
  | .text _ => h
  | .markup _ => h
  | .element e children =>
    let h := h.enter settings e
    (if Tag.isVoid e.tag then h else visitAll settings h children).leave e

def visitAll (settings : Settings) (h : Harvest) : List Child → Harvest
  | [] => h
  | c :: cs => visitAll settings (visit settings h c) cs

end

end Harvest

/-- Collects from nodes in order. -/
def Context.collect (settings : Settings) (nodes : List Node) (c : Context) :
    Context × List Report :=
  let h := Harvest.visitAll settings { toRuleList := c.toRuleList } (nodes.map Node.toChild)
  (h.into c, h.log.reverse.map .event)

end Folio
