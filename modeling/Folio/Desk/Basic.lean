import Folio.Desk.Command
import Folio.Site.Request
import Folio.Site.Restore
import Folio.Snapshot.Reading
import Folio.Snapshot.Writing

/-!
A desk: a site with documents, nodes and contexts under names. Commands run one after another; one
that fails keeps what it changed before.
-/
namespace Folio

structure Desk where
  site : Site
  documents : List (String × Document) := []
  nodes : List (String × Node) := []
  contexts : List (String × Context) := []

namespace Desk

/-- Why a command failed. -/
inductive Trouble where
  | structural (fault : StructureFault)
  | unreadableSnapshot
  | crash (c : Crash)
  | unknown (name : String)

/-- The words for a trouble; a crash keeps its own message. -/
def Trouble.message : Trouble → String
  | .structural fault => fault.message
  | .unreadableSnapshot => "Snapshot error: unreadable"
  | .crash c => c.message
  | .unknown name => s!"no such name: {name}"

/-- The result of work at a desk, and the desk after it. -/
abbrev Work (α : Type) := Except Trouble α × Desk

variable (desk : Desk)

def document? (doc : String) : Option Document := Entries.get? doc desk.documents

def node? (node : String) : Option Node := Entries.get? node desk.nodes

def setNode (node : String) (n : Node) : Desk :=
  { desk with nodes := Entries.put node n desk.nodes }

def setDocument (doc : String) (d : Document) : Desk :=
  { desk with documents := Entries.put doc d desk.documents }

/-- Takes a node and its name away. -/
def takeNode (node : String) : Work Node :=
  match desk.node? node with
  | none => (.error (.unknown node), desk)
  | some n => (.ok n, { desk with nodes := Entries.erase node desk.nodes })

/-- Takes several nodes and their names away. -/
def takeNodes : List String → Desk → Work (List Node)
  | [], desk => (.ok [], desk)
  | name :: names, desk =>
    match desk.takeNode name with
    | (.error e, desk) => (.error e, desk)
    | (.ok n, desk) =>
      match takeNodes names desk with
      | (.error e, desk) => (.error e, desk)
      | (.ok ns, desk) => (.ok (n :: ns), desk)

/-- Puts a document under a name and drops the one that was there. -/
def placeDocument (doc : String) (d : Document) : Desk :=
  let previous := desk.document? doc
  let desk := desk.setDocument doc d
  match previous with
  | none => desk
  | some old => { desk with site := desk.site.drop old }

/-- Makes an element in a document. -/
def createIn (doc tag : String) : Work Node :=
  match desk.document? doc with
  | none => (.error (.unknown doc), desk)
  | some d =>
    match desk.site.create d tag with
    | (.error fault, site) => (.error (.structural fault), { desk with site })
    | (.ok n, site) => (.ok n, { desk with site })

/-- Performs a builder call. -/
def perform (n : Node) (c : Call) : Work Node :=
  match desk.site.build n c with
  | (.error crash, site) => (.error (.crash crash), { desk with site })
  | (.ok n, site) => (.ok n, { desk with site })

/-- Captures a listener that refers to a named node. The target gets its id first. -/
def listenTo (n : Node) (target event source : String) : Work Node :=
  match desk.node? target with
  | none => (.error (.unknown target), desk)
  | some t =>
    let (t, site) := desk.site.ensureId t
    let desk := { desk with site }.setNode target t
    desk.perform n (.listen event (some t.idText) source)

mutual

/-- Builds an element in a document. -/
def buildSpec (doc : String) (spec : Spec) (desk : Desk) : Work Node :=
  match spec with
  | .mk tag steps =>
    match desk.createIn doc tag with
    | (.error e, desk) => (.error e, desk)
    | (.ok n, desk) => buildSteps doc steps n desk

def buildSteps (doc : String) (steps : List Step) (n : Node) (desk : Desk) : Work Node :=
  match steps with
  | [] => (.ok n, desk)
  | step :: steps =>
    match buildStep doc step n desk with
    | (.error e, desk) => (.error e, desk)
    | (.ok n, desk) => buildSteps doc steps n desk

/-- Takes one step in the building of a node. -/
def buildStep (doc : String) (step : Step) (n : Node) (desk : Desk) : Work Node :=
  match step with
  | .attr name value => desk.perform n (.attr name value)
  | .id value => desk.perform n (.id value)
  | .autoId => desk.perform n .autoId
  | .append sources =>
    match resolveAll doc sources desk with
    | (.error e, desk) => (.error e, desk)
    | (.ok children, desk) => desk.perform n (.append children)
  | .css declarations => desk.perform n (.css declarations)
  | .state value => desk.perform n (.state value)
  | .computed source => desk.perform n (.computed source)
  | .bindText key source => desk.perform n (.bindText key source)
  | .listen event source => desk.perform n (.listen event none source)
  | .listenTo target event source => desk.listenTo n target event source
  | .reset => desk.perform n .reset

/-- The child that a source stands for, or nothing. -/
def resolve (doc : String) (source : Source) (desk : Desk) : Work (List Child) :=
  match source with
  | .named node =>
    match desk.takeNode node with
    | (.error e, desk) => (.error e, desk)
    | (.ok n, desk) => (.ok [n.toChild], desk)
  | .spec spec =>
    match buildSpec doc spec desk with
    | (.error e, desk) => (.error e, desk)
    | (.ok n, desk) => (.ok [n.toChild], desk)
  | .markup html => (.ok [.markup html], desk)
  | .text none => (.ok [], desk)
  | .text (some content) => (.ok [.text content], desk)

def resolveAll (doc : String) (sources : List Source) (desk : Desk) : Work (List Child) :=
  match sources with
  | [] => (.ok [], desk)
  | source :: sources =>
    match resolve doc source desk with
    | (.error e, desk) => (.error e, desk)
    | (.ok cs, desk) =>
      match resolveAll doc sources desk with
      | (.error e, desk) => (.error e, desk)
      | (.ok ds, desk) => (.ok (cs ++ ds), desk)

end

/-- Puts a node into new elements, one around the other. -/
def nest (doc tag : String) : Nat → Node → Desk → Work Node
  | 0, n, desk => (.ok n, desk)
  | depth + 1, n, desk =>
    match desk.createIn doc tag with
    | (.error e, desk) => (.error e, desk)
    | (.ok outer, desk) => nest doc tag depth (outer.append [n.toChild]) desk

end Desk

end Folio
