import DeclArchive.Heap
import DeclArchive.LittleEndian

/-!
# Headers and sections

A container is four parts without gaps: a header, the module table, the index slots and the heap.
The header holds the two widths in one byte each and the places of the other parts. The module table
and the slots are sections: a count and that many pointers, in the widths of the container.
-/

namespace DeclArchive

/-- The widths of a container and the places of its parts. -/
structure Header where
  widths : Widths
  moduleTable : Nat
  globalTable : Nat
  heap : Nat
  deriving DecidableEq, Repr

namespace Header

/-- The length of a header with these widths. -/
def size (w : Widths) : Nat := 2 + 3 * w.pointer.toNat

end Header

/-- The bytes of a pointer. -/
def pointerBytes (w : Widths) (o : Offset) : Except Error (List UInt8) :=
  if w.largestOffset < o then .error (.offsetOverflow o w.pointer)
  else if 8 < w.pointer.toNat then .error (.fault .wideNumber)
  else .ok (LittleEndian.encode w.pointer.toNat o)

/-- The bytes of a header. -/
def Header.encode (h : Header) : Except Error (List UInt8) := do
  let places ← [h.moduleTable, h.globalTable, h.heap].mapM (pointerBytes h.widths)
  return h.widths.pointer :: h.widths.count :: places.flatten

/-- The bytes of a section. -/
def sectionBytes (f : Format) (offsets : List Offset) : Except Error (List UInt8) := do
  if f.largestCount < offsets.length then
    throw (.countOverflow offsets.length f.count)
  let pointers ← offsets.mapM (pointerBytes f.toWidths)
  return LittleEndian.encode f.countWidth offsets.length ++ pointers.flatten

end DeclArchive
