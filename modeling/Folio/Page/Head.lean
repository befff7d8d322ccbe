import Folio.Ordered
import Folio.Style.Scoped
import Folio.Telemetry.Report
import Folio.Text.Escape

/-!
The head of a document: title, declarations and document-level style. A named rule set is registered
once; global rules stand in the order of their registration.
-/
namespace Folio

/-- A declaration in the head. -/
inductive HeadTag where
  | metaTag (attributes : Ordered String String)
  | linkTag (attributes : Ordered String String)
  | styleTag (css : String)
  | scriptTag (src body : Option String) (isModule : Bool)

/-- A global rule: a selector and declarations, written `prop:value;` one after another. -/
structure GlobalRule where
  selector : String
  rules : String
  deriving DecidableEq, Repr

structure Head where
  title : Option String := none
  tags : List HeadTag := []
  namedRules : Ordered String String := .empty
  globalRules : List GlobalRule := []
  deriving Inhabited

/-- An attribute as it is written into a tag. -/
def attributeText (a : String × String) : String :=
  " " ++ a.1 ++ "=\"" ++ Text.escape a.2 ++ "\""

/-- Attributes one after another. -/
def attributesText (attributes : Ordered String String) : String :=
  String.join (attributes.entries.map attributeText)

/-- A declaration as markup, on a line of its own. -/
def HeadTag.html : HeadTag → String
  | .metaTag attributes => "<meta" ++ attributesText attributes ++ ">\n"
  | .linkTag attributes => "<link" ++ attributesText attributes ++ ">\n"
  | .styleTag css => "<style>" ++ Text.embed css ++ "</style>\n"
  | .scriptTag src body isModule =>
    "<script" ++ (if isModule then " type=\"module\"" else "")
      ++ (match src with
        | some src => attributeText ("src", src)
        | none => "")
      ++ ">"
      ++ (match body with
        | some body => Text.embed body
        | none => "")
      ++ "</script>\n"

namespace Head

variable (h : Head)

/-- Attributes under their kebab names; those whose name comes to nothing are left out. -/
def collect (attributes : List (String × String)) : Ordered String String :=
  .ofList ((attributes.map fun (name, value) => (Text.kebab name, value)).filter (!·.1.isEmpty))

/-- A call that declares something in the head. -/
inductive Call where
  | title (value : String)
  | metaTag (attributes : List (String × String))
  | linkTag (attributes : List (String × String))
  | style (css : String)
  | script (src : String) (isModule : Bool)
  | inlineScript (body : String)
  | named (name css : String)
  | global (selector : String) (declarations : List (String × String))
  | clear

/-- Adds a declaration. -/
def add (tag : HeadTag) : Head := { h with tags := h.tags ++ [tag] }

/-- Registers a rule set under a name that is not taken. -/
def named (name css : String) : Head × List Report :=
  if h.namedRules.contains name then
    (h, [.log .debug "named CSS already registered" [("name", name)]])
  else ({ h with namedRules := h.namedRules.insert name css }, [])

/-- Characters that could end a selector or the style element. -/
def isForbidden (c : Char) : Bool :=
  c == '\x7b' || c == '\x7d' || c == '<' || c == '>' || c == ';'

/-- Adds a global rule, unless its selector or its declarations come to nothing. -/
def global (selector : String) (declarations : List (String × String)) : Head :=
  let selector := Text.via (fun s => Text.trim (s.filter (!isForbidden ·))) selector
  let rules := Style.declarations Style.defaultLimit declarations
  if selector.isEmpty || rules.isEmpty then h
  else { h with globalRules := h.globalRules ++ [⟨selector, rules⟩] }

/-- Performs a call. -/
def apply : Call → Head × List Report
  | .title value => ({ h with title := some value }, [])
  | .metaTag attributes => (h.add (.metaTag (collect attributes)), [])
  | .linkTag attributes => (h.add (.linkTag (collect attributes)), [])
  | .style css => (h.add (.styleTag css), [])
  | .script src isModule => (h.add (.scriptTag (some src) none isModule), [])
  | .inlineScript body => (h.add (.scriptTag none (some body) false), [])
  | .named name css => h.named name css
  | .global selector declarations => (h.global selector declarations, [])
  | .clear => ({}, [])

/-- Performs calls in order. -/
def applyAll : List Call → Head → Head × List Report
  | [], h => (h, [])
  | c :: cs, h =>
    let (h, rs) := h.apply c
    let (h, rs') := applyAll cs h
    (h, rs ++ rs')

def isEmpty : Bool :=
  h.title.isNone && h.tags.isEmpty && h.namedRules.isEmpty && h.globalRules.isEmpty

/-- Document-level style: the global rules, then the named rule sets. -/
def css : String :=
  String.join (h.globalRules.map fun r => r.selector ++ "\x7b" ++ r.rules ++ "\x7d")
    ++ String.join h.namedRules.values

/-- The title and the declarations, one a line. -/
def html : String :=
  (match h.title with
    | some title => "<title>" ++ Text.escape title ++ "</title>\n"
    | none => "")
    ++ String.join (h.tags.map HeadTag.html)

end Head

end Folio
