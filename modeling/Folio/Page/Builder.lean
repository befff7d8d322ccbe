import Folio.Page.Node
import Folio.Page.Scope
import Folio.Style.Scoped

/-!
The calls that build a node. A call changes the node and what its document shares. Names that come
to nothing and scripts that are refused make a call do nothing but give advice.
-/
namespace Folio

namespace Node

variable (n : Node) (sc : Scope)

def setAttribute (name value : String) : Node :=
  { n with attributes := n.attributes.insert name value }

/-- Gives the node an id if it has none. -/
def ensureId : Node × Scope :=
  match n.id? with
  | some _ => (n, sc)
  | none =>
    let (id, sc) := sc.nextId
    (n.setAttribute "id" id, sc)

/-- The id that the node has after `ensureId`. -/
def idText : String := (n.attributes.get? "id").getD ""

/-- Whether a source is accepted; if not, advice is given. -/
def accepts (kind : Client.Kind) (source : String) : Bool × Scope :=
  match Client.check kind sc.settings.limits source with
  | .ok _ => (true, sc)
  | .error e =>
    (false, sc.advise "client script rejected" [("tag", n.tag), ("error", e.message)])

/-- Sets an attribute under the kebab form of its name. -/
def attr (name value : String) : Node × Scope :=
  let name := Text.kebab name
  if name.isEmpty then (n, sc.advise "attribute name normalized to nothing" [("tag", n.tag)])
  else (n.setAttribute name value, sc)

/-- Sets the id. A state recorded under the previous id moves to the new one. -/
def rename (value : String) : Except Crash Node × Scope :=
  let renamed := n.setAttribute "id" value
  match n.state, n.attributes.get? "id" with
  | some _, some previous =>
    if previous = value then (.ok renamed, sc)
    else
      let (moved, states) := sc.states.rename previous value
      (moved.map fun _ => renamed, { sc with states })
  | _, _ => (.ok renamed, sc)

/-- Adds children at the end. -/
def append (children : List Child) : Node := { n with children := n.children ++ children }

/-- Adds a class unless it is there. -/
def addClass (name : String) : Node :=
  match n.attributes.get? "class" with
  | none => n.setAttribute "class" name
  | some existing =>
    if name.toList ∈ Text.words existing.toList then n
    else if Text.isBlankText existing then n.setAttribute "class" (existing ++ name)
    else n.setAttribute "class" (existing ++ " " ++ name)

/-- Applies a scoped style: its class, and its rule unless the rule is there. -/
def applyStyle (s : Style.Scoped) : Node :=
  let n := n.addClass s.className
  if Text.occurs s.fragment.toList n.style.toList then n
  else { n with style := n.style ++ s.fragment }

/-- Declares a scoped style. Nothing happens if no declaration survives. -/
def css (ds : List (String × String)) : Node :=
  match Style.scope sc.settings.styleValueLength ds with
  | none => n
  | some s => n.applyStyle s

/-- Captures a state and records it under the node's id. -/
def capture (value : Json) : Node × Scope :=
  let (n, sc) := n.ensureId sc
  ({ n with state := some value }, { sc with states := sc.states.insert n.idText value })

/-- Captures a state that may have failed to become JSON; a failure is logged in any mode. -/
def captureResult (value : Except String Json) : Node × Scope :=
  match value with
  | .ok v => n.capture sc v
  | .error e =>
    (n, sc.warn "state value is not serializable" [("tag", n.tag), ("error", e)])

/-- Captures a script whose value becomes the node's text. -/
def setComputed (source : String) : Node × Scope :=
  match n.accepts sc .computed source with
  | (false, sc) => (n, sc)
  | (true, sc) =>
    let (n, sc) := n.ensureId sc
    ({ n with computed := some ⟨.computed, source⟩ }, sc)

/-- Binds the node's text to a key of the client state. -/
def bindText (key source : String) : Node × Scope :=
  if Text.isBlankText key then (n, sc.advise "state binding without a key" [("tag", n.tag)])
  else
    match n.accepts sc .computed source with
    | (false, sc) => (n, sc)
    | (true, sc) =>
      let (n, sc) := n.ensureId sc
      ({ n with bindings := n.bindings ++ [⟨key, ⟨.computed, source⟩⟩] }, sc)

def isEventChar (c : Char) : Bool := c.isAlphanum || c == '-' || c == '_' || c == ':' || c == '.'

/-- An event name without white space around it and in small letters. -/
def eventName (event : String) : String :=
  Text.via (fun s => (Text.trim s).map Char.toLower) event

/-- Captures a listener, perhaps one that refers to a target. -/
def listen (event : String) (targetId : Option String) (source : String) : Node × Scope :=
  let event := eventName event
  if event.isEmpty || !event.toList.all isEventChar then
    (n, sc.advise "invalid event name" [("tag", n.tag), ("event", event)])
  else
    match n.accepts sc .event source with
    | (false, sc) => (n, sc)
    | (true, sc) =>
      let (n, sc) := n.ensureId sc
      ({ n with listeners := n.listeners ++ [⟨event, n.idText, targetId, ⟨.event, source⟩⟩] }, sc)

end Node

/-- A builder call with all its arguments. -/
inductive Call where
  | attr (name value : String)
  | id (value : String)
  | autoId
  /-- Adds children; a single child and a text are the same. -/
  | append (children : List Child)
  | css (declarations : List (String × String))
  | state (value : Except String Json)
  | computed (source : String)
  | bindText (key source : String)
  | listen (event : String) (targetId : Option String) (source : String)
  | reset

/-- Performs a builder call. -/
def Node.apply (n : Node) (sc : Scope) : Call → Except Crash Node × Scope
  | .attr name value => let (n, sc) := n.attr sc name value; (.ok n, sc)
  | .id value => n.rename sc value
  | .autoId => let (n, sc) := n.ensureId sc; (.ok n, sc)
  | .append children => (.ok (n.append children), sc)
  | .css declarations => (.ok (n.css sc declarations), sc)
  | .state value => let (n, sc) := n.captureResult sc value; (.ok n, sc)
  | .computed source => let (n, sc) := n.setComputed sc source; (.ok n, sc)
  | .bindText key source => let (n, sc) := n.bindText sc key source; (.ok n, sc)
  | .listen event targetId source => let (n, sc) := n.listen sc event targetId source; (.ok n, sc)
  | .reset => (.ok (Reusable.reset n), sc)

end Folio
