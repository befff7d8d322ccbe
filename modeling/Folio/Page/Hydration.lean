import Folio.Client.Script
import Folio.Page.Context
import Folio.Settings.Basic
import Folio.Text.Escape

/-!
The hydration script: what a rendering collected, as statements that bring the page to life in the
browser. States come first, then computed texts, bindings and listeners.
-/
namespace Folio.Hydration

/-- The setting up of the client state and helpers, up to the opening of the initialiser. -/
def opening : String :=
  String.join [
    "(function()\x7b",
    "\"use strict\";",
    "var W=window.__weft=window.__weft||\x7b\x7d;",
    "W.state=W.state||\x7b\x7d;",
    "W.watchers=W.watchers||\x7b\x7d;",
    "W.set=function(k,v)\x7bW.state[k]=v;var l=W.watchers[k]||[];",
    "for(var i=0;i<l.length;i++)\x7btry\x7bl[i](v);\x7dcatch(e)\x7bconsole.error(\"[weft] watcher failed\",k,e);\x7d\x7d\x7d;",
    "W.watch=function(k,f)\x7b(W.watchers[k]=W.watchers[k]||[]).push(f);\x7d;",
    "var $=function(id)\x7breturn document.getElementById(id);\x7d;",
    "var str=function(v)\x7breturn v==null?\"\":typeof v===\"object\"?JSON.stringify(v):String(v);\x7d;",
    "var txt=function(el,v)\x7bif(el)el.textContent=str(v);\x7d;",
    "var val=function(el,v)\x7bif(el)el.value=str(v);\x7d;",
    "var has=function(k)\x7breturn Object.prototype.hasOwnProperty.call(W.state,k);\x7d;",
    "function init()\x7b"]

/-- The end of the initialiser, which runs once the document is there. -/
def closing : String :=
  String.join [
    "\x7d",
    "if(document.readyState===\"loading\")\x7bdocument.addEventListener(\"DOMContentLoaded\",init);\x7d",
    "else\x7binit();\x7d",
    "\x7d)();"]

/-- Elements that show a state as their value and not as their text. -/
def valueTags : List String := ["input", "textarea", "select"]

/-- A JSON value as it may stand in a script element. -/
def valueText (v : Json) : String := Text.embed v.text

/-- A string literal as it may stand in a script element. -/
def stringText (s : String) : String := valueText (.string s)

def stateStatement (e : StateEntry) : String :=
  let id := stringText e.id
  let setter := if e.tag ∈ valueTags then "val" else "txt"
  String.join ["W.state[", id, "]=", valueText e.value, ";", setter, "($(", id, "),W.state[", id,
    "]);"]

def computedStatement (e : ComputedEntry) : String :=
  let id := stringText e.id
  String.join ["try\x7btxt($(", id, "),(", e.source,
    ")(W.state));\x7dcatch(e)\x7bconsole.error(\"[weft] computed failed\",", id, ",e);\x7d"]

def bindingStatement (e : BindingEntry) : String :=
  let id := stringText e.nodeId
  let key := stringText e.key
  String.join ["(function(el,f)\x7bW.watch(", key, ",function(v)\x7btxt(el,f(v));\x7d);if(has(", key,
    "))\x7btry\x7btxt(el,f(W.state[", key,
    "]));\x7dcatch(e)\x7bconsole.error(\"[weft] binding failed\",", id, ",e);\x7d\x7d\x7d)($(", id, "),(",
    e.source, "));"]

/-- The source of a listener with its target put in, if the result is still accepted. -/
def listenerSource? (limits : Client.Limits) (e : ListenerEntry) : Option String :=
  let source := match e.targetId with
    | some id => Client.substitute id e.source
    | none => e.source
  if Client.accepts .event limits source then some source else none

def listenerStatement (e : ListenerEntry) (source : String) : String :=
  String.join ["(function(el,f)\x7bif(el)el.addEventListener(", stringText e.event,
    ",function(e)\x7breturn f.call(el,e,W);\x7d);\x7d)($(", stringText e.nodeId, "),(", source, "));"]

/-- The statements of listeners, without those that are no longer accepted. -/
def listenerStatements (limits : Client.Limits) (es : List ListenerEntry) : List String :=
  es.filterMap fun e => (listenerSource? limits e).map (listenerStatement e)

/-- Advice on the listeners that are left out. -/
def dropped (settings : Settings) (es : List ListenerEntry) : List Report :=
  if settings.isProduction then []
  else
    (es.filter fun e => (listenerSource? settings.limits e).isNone).map fun e =>
      .log .warn "event listener dropped after target substitution"
        [("node_id", e.nodeId), ("event", e.event)]

/-- The statements of the initialiser. -/
def statements (c : Context) (limits : Client.Limits) : List String :=
  c.states.map stateStatement ++ c.computed.map computedStatement
    ++ c.bindings.map bindingStatement ++ listenerStatements limits c.listeners

/-- The script for a context; nothing if the context is static. -/
def compile (c : Context) (settings : Settings) : String × List Report :=
  if c.isStatic then ("", [])
  else
    (opening ++ String.join (statements c settings.limits) ++ closing,
      dropped settings c.listeners)

end Folio.Hydration
