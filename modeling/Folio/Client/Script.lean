import Folio.Text.Blank
import Folio.Text.Search

/-!
Client scripts: source text that is carried as data and runs later in the browser. Checking a source
guards the script element that will hold it; it does not judge what the source does.
-/
namespace Folio.Client

/-- What a script is for: a computed text, or the handling of an event. -/
inductive Kind where
  | computed
  | event
  deriving DecidableEq, Repr

def Kind.name : Kind → String
  | .computed => "computed"
  | .event => "event"

/-- The greatest byte lengths of sources. -/
structure Limits where
  computed : Nat := 10000
  event : Nat := 5000
  deriving DecidableEq, Repr

def Limits.limit (l : Limits) : Kind → Nat
  | .computed => l.computed
  | .event => l.event

/-- Why a source is refused. -/
inductive Refusal where
  | empty (kind : Kind)
  | tooLong (kind : Kind) (length limit : Nat)
  | disallowed (kind : Kind) (sequence : String)
  deriving DecidableEq, Repr

def Refusal.message : Refusal → String
  | .empty kind => s!"{kind.name} script source is empty"
  | .tooLong kind length limit =>
    s!"{kind.name} script source is {length} bytes, exceeding the maximum of {limit}"
  | .disallowed kind sequence =>
    s!"{kind.name} script source contains disallowed sequence '{sequence}'"

/-- Sequences that would end or confuse a script element, in any letter case. -/
def denied : List String := ["</script", "<!--"]

/-- Checks a source: it says something, is short enough, and holds no denied sequence. -/
def check (kind : Kind) (limits : Limits) (source : String) : Except Refusal Unit :=
  let limit := limits.limit kind
  if Text.isBlankText source then .error (.empty kind)
  else if limit < source.utf8ByteSize then .error (.tooLong kind source.utf8ByteSize limit)
  else
    let lowered := source.toList.map Char.toLower
    match denied.find? fun sequence => Text.occurs sequence.toList lowered with
    | some sequence => .error (.disallowed kind sequence)
    | none => .ok ()

/-- Whether a source passes the check. -/
def accepts (kind : Kind) (limits : Limits) (source : String) : Bool :=
  match check kind limits source with
  | .ok _ => true
  | .error _ => false

/-- Stands in a handler for the id of the element that the handler refers to. -/
def placeholder : String := "__TARGET_ID__"

/-- Puts an id in place of every placeholder. -/
def substitute (id source : String) : String :=
  Text.via (Text.replaceAll placeholder.toList id.toList) source

/-- A source with its purpose. -/
structure Script where
  kind : Kind
  source : String
  deriving DecidableEq, Repr

/-- The tokens that a source has to have substituted. -/
def Script.substitutions (s : Script) : List String :=
  if Text.occurs placeholder.toList s.source.toList then [placeholder] else []

end Folio.Client
