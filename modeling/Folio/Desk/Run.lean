import Folio.Desk.Basic

/-!
Running commands: what each does to the desk, and what it returns. A list of commands that fills a
document makes a builder of pages.
-/
namespace Folio

/-- Counters of a site at one moment. -/
structure Site.Statistics where
  nodes : Pool.Statistics
  contexts : Pool.Statistics
  cache : Cache.Statistics
  keys : List String
  builds : Nat
  deriving DecidableEq, Repr

/-- The counters of the pools and the cache, the cached keys, and how many builders ran. -/
def Site.statistics (s : Site) : Site.Statistics :=
  ⟨s.nodes.statistics, s.contexts.statistics, s.cache.statistics, s.cache.keys, s.flights.started⟩

namespace Desk

/-- What a command returns. -/
inductive Reply where
  | done
  | flag (b : Bool)
  | count (n : Nat)
  | options (o : CacheOptions)
  | node (n : Node)
  | tree (n : Node)
  | text (content : String)
  | texts (contents : List String)
  | head (h : Head)
  | states (s : States)
  /-- A rendered page, and what is left of its document. -/
  | page (html : String) (rest : Document) (s : States)
  | document (d : Document) (s : States)
  | rendering (html : String) (c : Context) (script : String)
  | cache (reply : Cache.Reply String) (keys : List String)
  | settings (s : Settings)
  | statistics (s : Site.Statistics)

variable (desk : Desk)

/-- Goes on with a document that has a name. -/
def onDocument (doc : String) (f : Document → Work Reply) : Work Reply :=
  match desk.document? doc with
  | none => (.error (.unknown doc), desk)
  | some d => f d

/-- Goes on with a node that keeps its name. -/
def onNode (node : String) (f : Node → Work Reply) : Work Reply :=
  match desk.node? node with
  | none => (.error (.unknown node), desk)
  | some n => f n

/-- Gives the node that work came to a name, and returns it. -/
def keepNode (node : String) : Work Node → Work Reply
  | (.error e, desk) => (.error e, desk)
  | (.ok n, desk) => (.ok (.node n), desk.setNode node n)

/-- Adds nodes to the body of a document. -/
def pushAll (doc : String) (nodes : List Node) : Work Reply :=
  desk.onDocument doc fun d =>
    let d := { d with body := d.body ++ nodes }
    (.ok (.count d.body.length), desk.setDocument doc d)

/-- Takes a step on a named node, which loses its name unless the step succeeds. -/
def runStep (doc node : String) (step : Step) : Work Reply :=
  match desk.takeNode node with
  | (.error e, desk) => (.error e, desk)
  | (.ok n, desk) => keepNode node (buildStep doc step n desk)

/-- The markup of a node alone, as settings say. -/
def runHtml (n : Node) (settings : Settings) : Work Reply :=
  let (html, site) := desk.site.htmlAlone settings n
  (.ok (.text html), { desk with site })

/-- The markup of each of several nodes alone. -/
def runHtmlEach (nodes : List Node) : Work Reply :=
  let (htmls, site) := go nodes desk.site
  (.ok (.texts htmls), { desk with site })
where
  go : List Node → Site → List String × Site
    | [], site => ([], site)
    | n :: ns, site =>
      let (html, site) := site.htmlAlone (site.settingsOf n) n
      let (htmls, site) := go ns site
      (html :: htmls, site)

/-- Renders a document, which stays under its name with nothing in it. -/
def runRender (doc : String) : Work Reply :=
  desk.onDocument doc fun d =>
    let (html, d, site) := desk.site.render d
    (.ok (.page html d (site.store d.scope)), { desk with site }.setDocument doc d)

/-- Restores a document from the text of a snapshot and puts it under a name. -/
def runRestore (doc text : String) : Except Trouble Document × Desk :=
  match Snapshot.read? text with
  | none => (.error .unreadableSnapshot, desk)
  | some snapshot =>
    match desk.site.restore snapshot with
    | (.error fault, site) => (.error (.structural fault), { desk with site })
    | (.ok d, site) => (.ok d, { desk with site }.placeDocument doc d)

/-- Renders named nodes, which keep their names, into a named context. -/
def runContext (name : String) (nodes : List String) (settings : Option Settings) (reset : Bool) :
    Work Reply :=
  let before : Context := (Entries.get? name desk.contexts).getD {}
  let c := if reset then Reusable.reset before else before
  let (html, c, script, site) :=
    desk.site.renderInto (settings.getD desk.site.settings) (nodes.filterMap desk.node?) c
  (.ok (.rendering html c script), { desk with site, contexts := Entries.put name c desk.contexts })

/-- Runs a command. -/
def run : Command → Work Reply
  | .document doc options =>
    let (d, site) := desk.site.newDocument options
    (.ok (.options options), { desk with site }.placeDocument doc d)
  | .create doc node tag => keepNode node (desk.createIn doc tag)
  | .build doc node spec => keepNode node (buildSpec doc spec desk)
  | .add doc spec =>
    match buildSpec doc spec desk with
    | (.error e, desk) => (.error e, desk)
    | (.ok n, desk) =>
      match desk.pushAll doc [n] with
      | (.error e, desk) => (.error e, desk)
      | (.ok _, desk) => (.ok .done, desk)
  | .step doc node step => desk.runStep doc node step
  | .fresh node => (.ok .done, desk.setNode node Reusable.fresh)
  | .clone node copy => desk.onNode node fun n => (.ok .done, desk.setNode copy n)
  | .compare node other =>
    desk.onNode node fun n =>
      (.ok (.flag (match desk.node? other with
        | some m => n.same m
        | none => false)), desk)
  | .nest doc node tag depth =>
    match desk.takeNode node with
    | (.error e, desk) => (.error e, desk)
    | (.ok n, desk) =>
      match nest doc tag depth n desk with
      | (.error e, desk) => (.error e, desk)
      | (.ok n, desk) => (.ok .done, desk.setNode node n)
  | .dropNode node =>
    match desk.takeNode node with
    | (.error e, desk) => (.error e, desk)
    | (.ok _, desk) => (.ok .done, desk)
  | .tree node => desk.onNode node fun n => (.ok (.tree n), desk)
  | .html node => desk.onNode node fun n => desk.runHtml n (desk.site.settingsOf n)
  | .htmlWith node settings => desk.onNode node fun n => desk.runHtml n settings
  | .push doc nodes =>
    match takeNodes nodes desk with
    | (.error e, desk) => (.error e, desk)
    | (.ok ns, desk) => desk.pushAll doc ns
  | .body doc => desk.onDocument doc fun d => desk.runHtmlEach d.body
  | .head doc calls =>
    desk.onDocument doc fun d =>
      let (head, rs) := Head.applyAll calls d.head
      let desk := { desk with site := desk.site.report rs }
      (.ok (.head head), desk.setDocument doc { d with head })
  | .states doc => desk.onDocument doc fun d => (.ok (.states (desk.site.store d.scope)), desk)
  | .clear doc =>
    desk.onDocument doc fun d =>
      let (d, site) := desk.site.clear d
      (.ok .done, { desk with site }.setDocument doc d)
  | .drop doc =>
    match desk.document? doc with
    | none => (.ok (.flag false), desk)
    | some d =>
      (.ok (.flag true),
        { desk with site := desk.site.drop d, documents := Entries.erase doc desk.documents })
  | .render doc => desk.runRender doc
  | .snapshot doc => desk.onDocument doc fun d => (.ok (.text (desk.site.snapshot d).text), desk)
  | .restore doc text =>
    match desk.runRestore doc text with
    | (.error e, desk) => (.error e, desk)
    | (.ok d, desk) => (.ok (.document d (desk.site.store d.scope)), desk)
  | .copy doc target =>
    desk.onDocument doc fun d =>
      match desk.runRestore target (desk.site.snapshot d).text with
      | (.error e, desk) => (.error e, desk)
      | (.ok d, desk) => (.ok (.text (desk.site.snapshot d).text), desk)
  | .context name nodes settings reset => desk.runContext name nodes settings reset
  | .cache op =>
    let (reply, site) := desk.site.onCache op
    (.ok (.cache reply site.cache.keys), { desk with site })
  | .settings => (.ok (.settings desk.site.settings), desk)
  | .statistics => (.ok (.statistics desk.site.statistics), desk)
  | .reset => (.ok .done, { desk with site := desk.site.reset })

/-- Runs commands until one fails. -/
def runAll : List Command → Desk → Option Trouble × Desk
  | [], desk => (none, desk)
  | c :: cs, desk =>
    match desk.run c with
    | (.error e, desk) => (some e, desk)
    | (.ok _, desk) => runAll cs desk

/-- Clears the desk: its documents are dropped, and the site is what remains. -/
def leave : Site := desk.documents.foldl (fun site (_, d) => site.drop d) desk.site

/-- The name of the page that a builder fills. -/
def pageName : String := "doc"

/-- The builder that runs commands at a desk with one new document, the page. -/
def builder (commands : List Command) : Builder := fun site =>
  let (d, site) := site.newDocument {}
  match runAll commands { site, documents := [(pageName, d)] } with
  | (some (.crash c), desk) => (.crash c.message, desk.leave)
  | (some trouble, desk) => (.failure trouble.message, desk.leave)
  | (none, desk) =>
    match desk.document? pageName with
    | none => (.failure (Trouble.unknown pageName).message, desk.leave)
    | some d =>
      let desk := { desk with documents := Entries.erase pageName desk.documents }
      (.document d, desk.leave)

end Desk

end Folio
