import DeclArchive.LittleEndian
import DeclArchive.Text.Decimal

/-!
# The range of decimals

A decimal is a run of digits times a power of ten. Of the digits only the leading ones that fit in
eight bytes count; the others move the power. A decimal is in range if it stays below `2 ^ 1024` when
the digits, the power and their product are each rounded to 53 bits.
-/

namespace DeclArchive.Decimal

/-- The nearest number with 53 significant bits; of two, the one whose last bit is even. -/
def round53 (n : Nat) : Nat :=
  let unit := Nat.pow 2 (n.log2 - 52)
  let below := n / unit
  let rest := n % unit
  if unit < 2 * rest ∨ (2 * rest = unit ∧ below % 2 = 1) then (below + 1) * unit else below * unit

/-- The number that `read` and the leading digits stand for, as far as it fits in eight bytes, and
how many digits are left over. -/
def leading (read : Nat) : List Char → Nat × Nat
  | [] => (read, 0)
  | c :: cs =>
    let n := 10 * read + digit c
    if n < LittleEndian.span 8 then leading n cs else (read, cs.length + 1)

/-- Whether digits times a power of ten are in range. A negative power makes nothing too large. -/
def inRange (digits : List Char) (power : Int) : Bool :=
  let (kept, dropped) := leading 0 digits
  let power := power + dropped
  kept == 0 || decide (power < 0) ||
    decide (power ≤ 308) &&
      decide ((round53 (round53 kept * round53 (Nat.pow 10 power.toNat))).log2 < 1024)

end DeclArchive.Decimal
