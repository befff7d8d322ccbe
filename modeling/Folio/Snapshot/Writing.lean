import Folio.Snapshot.Basic

/-!
Snapshots and heads as JSON text. Fields that hold nothing are left out of nodes; a head is written
in full.
-/
namespace Folio

namespace Json

/-- A map of texts in its order. -/
def ofTexts (m : Ordered String String) : Json :=
  .object (m.entries.map fun (k, v) => (k, .string v))

def ofOption {α : Type} (f : α → Json) : Option α → Json
  | some a => f a
  | none => .null

/-- A field that is left out when there is nothing to say. -/
def optionalField {α : Type} (name : String) (f : α → Json) : Option α → List (String × Json)
  | some a => [(name, f a)]
  | none => []

/-- A list field that is left out when empty. -/
def listField (name : String) (items : List Json) : List (String × Json) :=
  if items.isEmpty then [] else [(name, .array items)]

end Json

open Json

def HeadTag.json : HeadTag → Json
  | .metaTag attributes => .object [("kind", .string "meta"), ("attributes", ofTexts attributes)]
  | .linkTag attributes => .object [("kind", .string "link"), ("attributes", ofTexts attributes)]
  | .styleTag css => .object [("kind", .string "style"), ("css", .string css)]
  | .scriptTag src body isModule =>
    .object [("kind", .string "script"), ("src", ofOption .string src),
      ("body", ofOption .string body), ("module", .bool isModule)]

def GlobalRule.json (r : GlobalRule) : Json :=
  .object [("selector", .string r.selector), ("rules", .string r.rules)]

def Head.json (h : Head) : Json :=
  .object [("title", ofOption .string h.title), ("tags", .array (h.tags.map HeadTag.json)),
    ("namedCss", ofTexts h.namedRules), ("globalCss", .array (h.globalRules.map GlobalRule.json))]

def BindingRecord.json (b : BindingRecord) : Json :=
  .object [("stateKey", .string b.key), ("source", .string b.source)]

def ListenerRecord.json (l : ListenerRecord) : Json :=
  .object ([("event", .string l.event), ("nodeId", .string l.nodeId)]
    ++ optionalField "targetId" .string l.targetId ++ [("source", .string l.source)])

/-- An element with the JSON of its children. -/
def ElementRecord.json (e : ElementRecord) (children : List Json) : Json :=
  .object ([("type", .string "element"), ("tag", .string e.tag)]
    ++ (if e.attributes.isEmpty then [] else [("attributes", ofTexts e.attributes)])
    ++ listField "children" children
    ++ optionalField "cssFragment" .string e.style
    ++ optionalField "state" id e.state
    ++ listField "stateBindings" (e.bindings.map BindingRecord.json)
    ++ listField "events" (e.listeners.map ListenerRecord.json)
    ++ optionalField "computedSource" .string e.computed)

namespace Record

mutual

def json : Record → Json
  | .element e children => e.json (jsons children)
  | .text content => .object [("type", .string "text"), ("content", .string content)]
  | .markup content => .object [("type", .string "markup"), ("content", .string content)]

def jsons : List Record → List Json
  | [] => []
  | r :: rs => r.json :: jsons rs

end

end Record

def Snapshot.json (s : Snapshot) : Json :=
  .object [("head", s.head.json), ("body", .array (Record.jsons s.body)),
    ("state", .object s.states.entries)]

/-- A snapshot as JSON text. -/
def Snapshot.text (s : Snapshot) : String := s.json.text

end Folio
