import Folio.Markup.Minify
import Folio.Page.Builder
import Folio.Page.Envelope
import Folio.Page.Hydration
import Folio.Page.Render
import Folio.Pool.Recycling
import Folio.Site.Basic

/-!
Documents: pages under construction on a site. Rendering uses a document up: its nodes go back to
the pool and its head and states are emptied.
-/
namespace Folio

/-- How a document takes part in caching. -/
structure CacheOptions where
  useCache : Bool := false
  key : Option String := none
  deriving DecidableEq, Repr

namespace CacheOptions

def cached (key : String) : CacheOptions := ⟨true, some key⟩

/-- The key to cache under: caching is on and the key is not blank. -/
def usableKey? (o : CacheOptions) : Option String :=
  if o.useCache then o.key.filter (!Text.isBlankText ·) else none

end CacheOptions

/-- A document. Its scope is the place of its states on the site. -/
structure Document where
  scope : Nat
  body : List Node := []
  head : Head := {}
  options : CacheOptions := {}

namespace Site

variable (s : Site)

/-- Advice for authors, left out in production. -/
def advise (message : String) (fields : List (String × String) := []) : Site :=
  if s.settings.isProduction then s else s.report [.log .warn message fields]

/-- Starts a document. -/
def newDocument (options : CacheOptions) : Document × Site :=
  let s := if options.useCache && options.usableKey?.isNone then
      s.advise "document requests caching without a cache key"
    else s
  ({ scope := s.stores.length, options }, { s with stores := s.stores ++ [.empty] })

/-- Makes a node in the scope of a document. -/
def create (d : Document) (tag : String) : Except StructureFault Node × Site :=
  match Tag.normalize tag with
  | .error e => (.error e, s)
  | .ok tag =>
    let (n, s) := s.acquireNode
    (.ok { n with tag, scope := some d.scope }, s)

/-- Performs a builder call on a node. -/
def build (n : Node) (c : Call) : Except Crash Node × Site :=
  s.within n.scope fun sc => n.apply sc c

/-- Gives a node an id if it has none. -/
def ensureId (n : Node) : Node × Site := s.within n.scope fun sc => n.ensureId sc

/-- Gives nodes and all elements below them back to the pool. -/
def recycleAll (nodes : List Node) : Site :=
  let (pool, rs) := s.nodes.recycleAll (nodes.map Node.toChild)
  { s with nodes := pool }.report rs

/-- Empties a document: its nodes go back to the pool. -/
def clear (d : Document) : Document × Site :=
  let s := s.recycleAll d.body
  ({ d with body := [], head := {} }, s.setStore d.scope .empty)

/-- Drops a document. -/
def drop (d : Document) : Site := (s.clear d).2

/-- Renders nodes on their own, as the settings of `n`'s scope say. What is collected is dropped. -/
def htmlAlone (settings : Settings) (n : Node) : String × Site :=
  let (_, rs) := Context.collect settings [n] {}
  (Node.htmlOf [n], s.report rs)

/-- The settings that a node was made under; the defaults for a node without scope. -/
def settingsOf (n : Node) : Settings := if n.scope.isSome then s.settings else {}

/-- Renders nodes into a context and compiles the hydration script of what the context holds then.
-/
def renderInto (settings : Settings) (nodes : List Node) (c : Context) :
    String × Context × String × Site :=
  let (c, rs) := Context.collect settings nodes c
  let (script, rs') := Hydration.compile c settings
  (Node.htmlOf nodes, c, script, s.report (rs ++ rs'))

/-- Renders a whole page with a context from the pool. -/
def renderPage (head : Head) (body : List Node) : String × Site :=
  let (context, contexts, rs) := s.contexts.acquire
  let s := { s with contexts }.report rs
  let (html, context, script, s) := s.renderInto s.settings body context
  let page := (PageParts.mk head context.styles html script).wrap s.settings.lang
  let (_, contexts, rs) := s.contexts.release context
  let s := { s with contexts }.report rs
  let page := if s.settings.shouldMinify then Markup.minify page else page
  (page, s.report [.tick Metric.renderCount, .timing Metric.renderDuration,
    .log .trace "page rendered" [("bytes", toString page.utf8ByteSize)]])

/-- Renders a document without looking into the cache, and empties it. -/
def renderUncached (d : Document) : String × Document × Site :=
  let (page, s) := s.renderPage d.head d.body
  let (d, s) := s.clear d
  (page, d, s)

/-- Renders a document and empties it. With a usable key the page is taken from the cache, or stored
there. -/
def render (d : Document) : String × Document × Site :=
  match d.options.usableKey? with
  | none => s.renderUncached d
  | some key =>
    match s.onCache (.get key) with
    | (.value (some page), s) =>
      let (d, s) := s.clear d
      (page, d, s)
    | (_, s) =>
      let (page, d, s) := s.renderUncached d
      (page, d, (s.onCache (.set key page)).2)

end Site

end Folio
