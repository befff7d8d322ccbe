import Folio.Settings.Basic
import Folio.Text.Lowercase

/-!
Settings written as words: modes, truth values and counts.
-/
namespace Folio.Settings

/-- A word without white space around it and without regard to case. -/
def plainWord (s : String) : String := Text.via (fun cs => Text.lower (Text.trim cs)) s

def readMode (s : String) : Except Invalid Mode :=
  let word := plainWord s
  if word = "development" ∨ word = "dev" then .ok .development
  else if word = "production" ∨ word = "prod" then .ok .production
  else .error ⟨"mode", s!"unknown mode '{word}'"⟩

/-- Reads a truth value. The complaint gives the number of bytes and not the text. -/
def readBool (key s : String) : Except Invalid Bool :=
  let word := plainWord s
  if word ∈ ["true", "1", "yes", "on"] then .ok true
  else if word ∈ ["false", "0", "no", "off"] then .ok false
  else .error ⟨key, s!"expected a boolean, got {s.utf8ByteSize} characters"⟩

/-- Why digits do not make a count. -/
inductive CountFault where
  | empty
  | invalidDigit
  | tooLarge
  deriving DecidableEq, Repr

def CountFault.message : CountFault → String
  | .empty => "cannot parse integer from empty string"
  | .invalidDigit => "invalid digit found in string"
  | .tooLarge => "number too large to fit in target type"

/-- The largest count. -/
def maxCount : Nat := UInt64.size - 1

/-- Adds digits to a count. The first character at fault decides the complaint. -/
def countFrom (n : Nat) : List Char → Except CountFault Nat
  | [] => .ok n
  | c :: s =>
    if !c.isDigit then .error .invalidDigit
    else
      let n' := n * 10 + (c.toNat - '0'.toNat)
      if maxCount < n' then .error .tooLarge else countFrom n' s

def countOfChars : List Char → Except CountFault Nat
  | [] => .error .empty
  | ['+'] => .error .invalidDigit
  | '+' :: s => countFrom 0 s
  | s => countFrom 0 s

/-- Reads a count; white space around it is ignored and a plus sign is allowed. -/
def readCount (key s : String) : Except Invalid Nat :=
  match countOfChars (Text.trim s.toList) with
  | .ok n => .ok n
  | .error fault => .error ⟨key, fault.message⟩

end Folio.Settings
