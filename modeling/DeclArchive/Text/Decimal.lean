/-!
# Decimal digits

Runs of ASCII digits and the numbers they stand for, without signs and separators.
-/

namespace DeclArchive.Decimal

/-- Whether these are one or more digits. -/
def isDigits (cs : List Char) : Bool := !cs.isEmpty && cs.all Char.isDigit

/-- The value of a digit. -/
def digit (c : Char) : Nat := c.toNat - '0'.toNat

/-- The number that digits stand for. -/
def value (cs : List Char) : Nat := cs.foldl (fun n c => 10 * n + digit c) 0

end DeclArchive.Decimal
