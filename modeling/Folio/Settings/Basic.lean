import Folio.Client.Script

/-!
The settings of rendering: their defaults, what follows from them, and when they are valid.
-/
namespace Folio

inductive Mode where
  | development
  | production
  deriving DecidableEq, Repr

namespace Mode

/-- The name used in settings files. -/
def name : Mode → String
  | .development => "development"
  | .production => "production"

/-- The name used in log events. -/
def title : Mode → String
  | .development => "Development"
  | .production => "Production"

end Mode

/-- Settings shared by all pages of a site. Lengths of sources are in bytes, those of style values
in characters. -/
structure Settings where
  mode : Mode := .development
  lang : String := "en"
  poolCapacity : Nat := 1024
  contextPoolCapacity : Nat := 64
  cacheCapacity : Nat := 100
  maxComputedLength : Nat := 10000
  maxEventLength : Nat := 5000
  styleValueLength : Nat := 200
  minify : Option Bool := none
  deriving DecidableEq, Repr, Inhabited

namespace Settings

/-- A setting that cannot be used. -/
structure Invalid where
  key : String
  reason : String
  deriving DecidableEq, Repr

def Invalid.message (e : Invalid) : String := s!"Invalid value for '{e.key}': {e.reason}"

variable (s : Settings)

def isProduction : Bool := s.mode == .production

/-- Pages are minified as asked, or else in production only. -/
def shouldMinify : Bool := s.minify.getD s.isProduction

def limits : Client.Limits := ⟨s.maxComputedLength, s.maxEventLength⟩

/-- The first setting that is out of bounds: a blank language, or a length limit of zero. -/
def validate : Except Invalid Unit :=
  if Text.isBlankText s.lang then .error ⟨"lang", "must not be empty"⟩
  else
    let lengths := [("max_computed_source_len", s.maxComputedLength),
      ("max_event_source_len", s.maxEventLength), ("css_value_max_len", s.styleValueLength)]
    match lengths.find? (·.2 == 0) with
    | some (key, _) => .error ⟨key, "must be greater than zero"⟩
    | none => .ok ()

end Settings

end Folio
