import DeclArchive.Error
import DeclArchive.LittleEndian

/-!
# Widths

A container fixes two byte widths, one for offsets and one for array counts. `Widths` holds any two
bytes, as a request or a file gives them. A `Format` holds widths between one and eight, and only
`Widths.check` makes one, so whatever reads or writes with a `Format` needs no check of its own.
-/

namespace DeclArchive

/-- Byte widths of offsets and of array counts. -/
structure Widths where
  pointer : UInt8
  count : UInt8
  deriving DecidableEq, Repr

namespace Widths

/-- Four bytes each. -/
def standard : Widths := ⟨4, 4⟩

/-- The largest number that `width` bytes hold; beyond eight bytes it does not grow. -/
def largest (width : UInt8) : Nat :=
  LittleEndian.span (min width.toNat 8) - 1

/-- The largest offset these widths can store. -/
def largestOffset (w : Widths) : Nat := largest w.pointer

/-- The largest array count these widths can store. -/
def largestCount (w : Widths) : Nat := largest w.count

/-- Both widths are between one and eight. -/
def Valid (w : Widths) : Prop :=
  (1 ≤ w.pointer.toNat ∧ w.pointer.toNat ≤ 8) ∧ 1 ≤ w.count.toNat ∧ w.count.toNat ≤ 8

instance (w : Widths) : Decidable w.Valid :=
  inferInstanceAs (Decidable (_ ∧ _))

end Widths

/-- Widths that a container can use. -/
structure Format extends Widths where
  valid : toWidths.Valid
  deriving DecidableEq

/-- The format of these widths; the pointer width is looked at first. -/
def Widths.check (w : Widths) : Except Error Format :=
  if h : w.Valid then .ok ⟨w, h⟩
  else if 1 ≤ w.pointer.toNat ∧ w.pointer.toNat ≤ 8 then .error (.invalidWidth .count w.count)
  else .error (.invalidWidth .pointer w.pointer)

/-- The largest position that a stored number can name. -/
def largestPosition : Nat := LittleEndian.span 8 - 1

namespace Format

/-- Four bytes for offsets and four for counts. -/
def standard : Format := ⟨.standard, by decide⟩

/-- The width of an offset in bytes. -/
def pointerWidth (f : Format) : Nat := f.pointer.toNat

/-- The width of an array count in bytes. -/
def countWidth (f : Format) : Nat := f.count.toNat

end Format

end DeclArchive
