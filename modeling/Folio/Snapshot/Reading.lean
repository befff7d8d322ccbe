import Folio.Json.Decode
import Folio.Snapshot.Basic

/-!
Snapshots and heads from JSON text. Records may be written as objects or as arrays of their fields;
unknown fields are skipped, and a missing field has a default only where that is said here.
-/
namespace Folio

open Json Tree

def texts? : Tree → Option (Ordered String String) := map? string?

def optionalText : Option Tree → Option (Option String) := optional string?

namespace HeadTag

/-- A declaration with the tag of its kind taken off. -/
def ofContent? (kind : String) (content : Tree) : Option HeadTag :=
  if kind = "meta" then
    match content.record? ["attributes"] with
    | some [attributes] => (required texts? attributes).map .metaTag
    | _ => none
  else if kind = "link" then
    match content.record? ["attributes"] with
    | some [attributes] => (required texts? attributes).map .linkTag
    | _ => none
  else if kind = "style" then
    match content.record? ["css"] with
    | some [css] => (required string? css).map .styleTag
    | _ => none
  else
    match content.record? ["src", "body", "module"] with
    | some [src, body, isModule] => do
      let src ← optionalText src
      let body ← optionalText body
      let isModule ← required bool? isModule
      return .scriptTag src body isModule
    | _ => none

/-- A declaration. All of it must have a value, skipped fields included. -/
def ofTree? (depth : Nat) (t : Tree) : Option HeadTag :=
  if t.sound depth then
    (tagged? "kind" ["meta", "link", "style", "script"] false t).bind fun (kind, content) =>
      ofContent? kind content
  else none

end HeadTag

def GlobalRule.ofTree? (t : Tree) : Option GlobalRule :=
  match t.record? ["selector", "rules"] with
  | some [selector, rules] => do
    let selector ← required string? selector
    let rules ← required string? rules
    return ⟨selector, rules⟩
  | _ => none

/-- A list whose items are read alike. -/
def listOf? {α : Type} (read : Tree → Option α) (t : Tree) : Option (List α) :=
  t.items?.bind (allSome read)

/-- A head nested in `above` arrays or objects. All its fields have defaults. -/
def Head.ofTree? (above : Nat) (t : Tree) : Option Head :=
  match t.record? ["title", "tags", "namedCss", "globalCss"] with
  | some [title, tags, named, global] => do
    let title ← optionalText title
    let tags ← orElse [] (listOf? (HeadTag.ofTree? (depthLimit - above - 2))) tags
    let named ← orElse .empty texts? named
    let global ← orElse [] (listOf? GlobalRule.ofTree?) global
    return ⟨title, tags, named, global⟩
  | _ => none

/-- Reads a head on its own. -/
def Head.read? (s : String) : Option Head := (Tree.read? s).bind (Head.ofTree? 0)

def BindingRecord.ofTree? (t : Tree) : Option BindingRecord :=
  match t.record? ["stateKey", "source"] with
  | some [key, source] => do
    let key ← required string? key
    let source ← required string? source
    return ⟨key, source⟩
  | _ => none

def ListenerRecord.ofTree? (t : Tree) : Option ListenerRecord :=
  match t.record? ["event", "nodeId", "targetId", "source"] with
  | some [event, nodeId, targetId, source] => do
    let event ← required string? event
    let nodeId ← required string? nodeId
    let targetId ← optionalText targetId
    let source ← required string? source
    return ⟨event, nodeId, targetId, source⟩
  | _ => none

def elementFields : List String :=
  ["tag", "attributes", "children", "cssFragment", "state", "stateBindings", "events",
    "computedSource"]

namespace Record

/-- A record of a text. -/
def ofContent? (make : String → Record) (content : Tree) : Option Record :=
  match content.record? ["content"] with
  | some [content] => (required string? content).map make
  | _ => none

/-- A node of a tree that has a value. Children may be tagged by number. `fuel` bounds the nesting
of nodes, which is less than that of arrays and objects. -/
def ofTree? : Nat → Bool → Tree → Option Record
  | 0, _, _ => none
  | fuel + 1, numbered, t =>
    match tagged? "type" ["element", "text", "markup"] numbered t with
    | none => none
    | some (kind, content) =>
      if kind = "text" then ofContent? .text content
      else if kind = "markup" then ofContent? .markup content
      else
        match content.record? elementFields with
        | some [tag, attributes, children, style, state, bindings, listeners, computed] => do
          let tag ← required string? tag
          let attributes ← orElse .empty texts? attributes
          let children ← orElse [] (listOf? (ofTree? fuel true)) children
          let style ← optionalText style
          let state ← optional (value? depthLimit) state
          let bindings ← orElse [] (listOf? BindingRecord.ofTree?) bindings
          let listeners ← orElse [] (listOf? ListenerRecord.ofTree?) listeners
          let computed ← optionalText computed
          return .element ⟨tag, attributes, style, state, bindings, listeners, computed⟩ children
        | _ => none

end Record

/-- A top-level node. All of it must have a value, skipped fields included. -/
def Record.ofRoot? (depth : Nat) (t : Tree) : Option Record :=
  if t.sound depth then Record.ofTree? depthLimit false t else none

/-- A snapshot. All its fields have defaults. -/
def Snapshot.ofTree? (t : Tree) : Option Snapshot :=
  match t.record? ["head", "body", "state"] with
  | some [head, body, states] => do
    let head ← orElse {} (Head.ofTree? 1) head
    let body ← orElse [] (listOf? (Record.ofRoot? (depthLimit - 2))) body
    let states ← orElse .empty (map? (value? (depthLimit - 2))) states
    return ⟨head, body, states⟩
  | _ => none

/-- Reads a snapshot from JSON text. -/
def Snapshot.read? (s : String) : Option Snapshot := (Tree.read? s).bind Snapshot.ofTree?

end Folio
