import Folio.Style.Scoped

/-!
Style fragments from elsewhere: a sequence of rules for single classes is rebuilt rule by rule, and
all else is dropped.
-/
namespace Folio.Style

open Text

def isClassChar (c : Char) : Bool := c.isAlphanum || c == '-' || c == '_'

/-- The name of a selector that is a single class. -/
def classOf? (selector : List Char) : Option (List Char) :=
  match trim selector with
  | '.' :: name => if !name.isEmpty && name.all isClassChar then some name else none
  | _ => none

/-- The declarations of a rule body; a piece without a colon is none. -/
def bodyDeclarations (body : List Char) : List (String × String) :=
  (splitOn ';' body).filterMap fun d =>
    (splitAt? ':' d).map fun (name, value) => (String.ofList name, String.ofList value)

/-- A rule rebuilt, or nothing if its selector is no class or none of its declarations survives. -/
def rebuildRule (limit : Nat) (selector body : List Char) : String :=
  match classOf? selector with
  | none => ""
  | some name =>
    let rules := declarations limit (bodyDeclarations body)
    if rules.isEmpty then "" else ruleText (String.ofList name) rules

/-- The next rule of a fragment: selector, body and the rest. Text without a complete rule ends it.
-/
def nextRule? (s : List Char) : Option (List Char × List Char × List Char) :=
  match splitAt? '\x7b' s with
  | none => none
  | some (selector, s) =>
    match splitAt? '\x7d' s with
    | none => none
    | some (body, rest) => some (selector, body, rest)

theorem length_rest_nextRule? {s selector body rest : List Char}
    (h : nextRule? s = some (selector, body, rest)) : rest.length < s.length := by
  unfold nextRule? at h
  split at h
  · simp at h
  · next hs =>
    split at h
    · simp at h
    · next hb =>
      simp only [Option.some.injEq, Prod.mk.injEq] at h
      have h₁ := length_after_splitAt? hs
      have h₂ := length_after_splitAt? hb
      rw [← h.2.2]
      omega

/-- The rules of a fragment as selector and body. -/
def rules (s : List Char) : List (List Char × List Char) :=
  match _h : nextRule? s with
  | none => []
  | some (selector, body, rest) => (selector, body) :: rules rest
termination_by s.length
decreasing_by exact length_rest_nextRule? (by assumption)

/-- A fragment rebuilt from its rules for single classes. -/
def cleanFragment (limit : Nat) (fragment : String) : String :=
  String.join ((rules fragment.toList).map fun (selector, body) => rebuildRule limit selector body)

end Folio.Style
