import Folio.Text.Quoted

/-!
The words for a task that broke off.
-/
namespace Folio.Flight

/-- The reason given to callers when a task broke off with a message. -/
def crashReason (message : String) : String :=
  s!"task N panicked with message {Text.quoted message}"

end Folio.Flight
