/-!
Powers of the two bases between which numbers are converted.
-/
namespace Folio.Decimal

/-- The power of two with an exponent. -/
def twoTo (n : Nat) : Nat := Nat.pow 2 n

/-- The power of ten with an exponent. -/
def tenTo (n : Nat) : Nat := Nat.pow 10 n

end Folio.Decimal
