import Folio.Settings.Words

/-!
Settings from environment variables.
-/
namespace Folio.Settings

/-- Variables in the order in which they were set; `none` stands for a value that is not text. -/
abbrev Environment := List (String × Option String)

/-- The text of a variable. The last setting counts, and a value that is not text counts as unset.
-/
def Environment.read (env : Environment) (name : String) : Option String :=
  (env.reverse.find? (·.1 == name)).bind (·.2)

/-- Applies a reader to a variable that is set. -/
def ifSet (value : Option String) (s : Settings) (apply : String → Except Invalid Settings) :
    Except Invalid Settings :=
  match value with
  | none => .ok s
  | some v => apply v

/-- The prefix of the variables that configure a site. -/
def defaultPrefix : String := "WEFT_"

/-- Overwrites settings by the variables whose names start with `start`, then validates. The first
variable at fault, in the order of the fields, decides the complaint. -/
def mergeEnvironment (s : Settings) (start : String) (env : Environment) :
    Except Invalid Settings := do
  let var := fun name => env.read (start ++ name)
  let s ← ifSet (var "MODE") s fun v => (readMode v).map fun m => { s with mode := m }
  let s ← ifSet (var "LANG") s fun v => .ok { s with lang := v }
  let s ← ifSet (var "POOL_CAPACITY") s fun v =>
    (readCount "pool_capacity" v).map fun n => { s with poolCapacity := n }
  let s ← ifSet (var "CONTEXT_POOL_CAPACITY") s fun v =>
    (readCount "context_pool_capacity" v).map fun n => { s with contextPoolCapacity := n }
  let s ← ifSet (var "CACHE_CAPACITY") s fun v =>
    (readCount "cache_capacity" v).map fun n => { s with cacheCapacity := n }
  let s ← ifSet (var "MAX_COMPUTED_SOURCE_LEN") s fun v =>
    (readCount "max_computed_source_len" v).map fun n => { s with maxComputedLength := n }
  let s ← ifSet (var "MAX_EVENT_SOURCE_LEN") s fun v =>
    (readCount "max_event_source_len" v).map fun n => { s with maxEventLength := n }
  let s ← ifSet (var "CSS_VALUE_MAX_LEN") s fun v =>
    (readCount "css_value_max_len" v).map fun n => { s with styleValueLength := n }
  let s ← ifSet (var "MINIFY") s fun v =>
    (readBool "minify" v).map fun b => { s with minify := some b }
  s.validate
  return s

/-- Default settings overwritten by the environment. -/
def fromEnvironment (env : Environment) : Except Invalid Settings :=
  mergeEnvironment {} defaultPrefix env

end Folio.Settings
