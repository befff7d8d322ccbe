import Folio.Site.Document
import Folio.Snapshot.Basic
import Folio.Style.Fragment

/-!
Export of documents to snapshots, and import from snapshots that need not be trusted. Client scripts
are never restored, markup comes back as text, and style is rebuilt.
-/
namespace Folio.Site

variable (s : Site)

/-- The snapshot of a document. -/
def snapshot (d : Document) : Snapshot := .take d.head d.body (s.store d.scope)

/-- Sets attributes one after another. -/
def importAttributes (n : Node) : List (String × String) → Site → Node × Site
  | [], s => (n, s)
  | (name, value) :: rest, s =>
    let (n, s) := s.within n.scope fun sc => n.attr sc name value
    importAttributes n rest s

/-- Rebuilds the style of an element. -/
def importStyle (n : Node) (tag : String) (fragment : Option String) : Node × Site :=
  match fragment with
  | none => (n, s)
  | some fragment =>
    let clean := Style.cleanFragment s.settings.styleValueLength fragment
    let s := if clean.utf8ByteSize ≠ fragment.utf8ByteSize then
        s.report [.log .debug "imported CSS fragment was rewritten" [("tag", tag)]]
      else s
    ({ n with style := clean }, s)

/-- Captures the state of an element. -/
def importState (n : Node) (state : Option Json) : Node × Site :=
  match state with
  | none => (n, s)
  | some value => s.within n.scope fun sc => n.capture sc value

mutual

/-- Rebuilds a record as a child. Children come before style and state. -/
def importRecord (d : Document) (r : Record) (s : Site) : Except StructureFault Child × Site :=
  match r with
  | .text content => (.ok (.text content), s)
  | .markup content => (.ok (.text content), s)
  | .element e children =>
    match s.create d e.tag with
    | (.error fault, s) => (.error fault, s)
    | (.ok n, s) =>
      let (n, s) := importAttributes n e.attributes.entries s
      match importRecords d children s with
      | (.error fault, s) => (.error fault, s)
      | (.ok cs, s) =>
        let (n, s) := s.importStyle (n.append cs) e.tag e.style
        let (n, s) := s.importState n e.state
        (.ok n.toChild, s)

def importRecords (d : Document) (rs : List Record) (s : Site) :
    Except StructureFault (List Child) × Site :=
  match rs with
  | [] => (.ok [], s)
  | r :: rs =>
    match importRecord d r s with
    | (.error fault, s) => (.error fault, s)
    | (.ok c, s) =>
      match importRecords d rs s with
      | (.error fault, s) => (.error fault, s)
      | (.ok cs, s) => (.ok (c :: cs), s)

end

/-- Rebuilds the top-level records of a snapshot after the nodes `done`, which are reversed. Text at
the top level is dropped. On a fault the nodes come back as far as they got. -/
def importBody (d : Document) (done : List Node) :
    List Record → Site → Option StructureFault × List Node × Site
  | [], s => (none, done.reverse, s)
  | r :: rs, s =>
    match importRecord d r s with
    | (.error fault, s) => (some fault, done.reverse, s)
    | (.ok (.element e children), s) =>
      importBody d ({ toElement := e, children } :: done) rs s
    | (.ok (.text content), s) => importBody d done rs (droppedText content s)
    | (.ok (.markup content), s) => importBody d done rs (droppedText content s)
where
  droppedText (content : String) (s : Site) : Site :=
    s.report [.log .debug "top-level text dropped on import" [("content", content)]]

/-- Rebuilds a document from a snapshot. A document that cannot be completed is dropped. -/
def restore (snapshot : Snapshot) : Except StructureFault Document × Site :=
  let (d, s) := s.newDocument {}
  let d := { d with head := snapshot.head }
  let s := s.setStore d.scope (.ofOrdered snapshot.states)
  match importBody d [] snapshot.body s with
  | (none, body, s) => (.ok { d with body }, s)
  | (some fault, body, s) => (.error fault, s.drop { d with body })

end Folio.Site
