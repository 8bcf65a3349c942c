import DeclArchive.Widths

/-!
# Heap

The heap is an append-only run of bytes that holds all data of variable length. Its first byte is a
zero that stands for nothing, so no data ever begins at offset `0`, and `0` can mean "absent".
-/

namespace DeclArchive

/-- A position in the heap; `0` means "absent". -/
abbrev Offset := Nat

namespace Offset

/-- The offset that addresses nothing. -/
def null : Offset := 0

/-- Whether the offset addresses nothing. -/
def isNull (o : Offset) : Bool := o == 0

/-- The offset, unless it addresses nothing. -/
def present? (o : Offset) : Option Offset :=
  if o = 0 then none else some o

/-- An offset in hexadecimal. -/
def text (o : Offset) : String :=
  "0x" ++ String.ofList (Nat.toDigits 16 o)

end Offset

/-- The bytes written so far; the first of them is the marker. -/
structure Heap where
  bytes : Array UInt8
  marker : bytes[0]? = some 0

namespace Heap

/-- A heap that holds the marker only. -/
def empty : Heap := ⟨#[0], rfl⟩

/-- The most bytes that one block of memory has. -/
def largestBlock : Nat := 0x7FFFFFFFFFFFFFFF

/-- An empty heap with room for `capacity` bytes, where there can be that much room. -/
def reserve (capacity : Nat) : Except Error Heap :=
  if largestBlock < capacity then .error (.fault .blockTooLarge) else .ok empty

/-- The offset of the byte that comes next. -/
def next (h : Heap) : Offset := h.bytes.size

/-- The number of bytes, the marker included. -/
def size (h : Heap) : Nat := h.bytes.size

theorem marker_append {bytes : Array UInt8} (h : bytes[0]? = some 0) (data : List UInt8) :
    (bytes ++ data)[0]? = some 0 := by
  rw [← Array.getElem?_toList] at h ⊢
  obtain ⟨size_pos, _⟩ := List.getElem?_eq_some_iff.1 h
  rw [Array.toList_appendList, List.getElem?_append_left size_pos, h]

/-- Adds `data` at the end. -/
def append (h : Heap) (data : List UInt8) : Heap :=
  ⟨h.bytes ++ data, marker_append h.marker data⟩

theorem size_pos (h : Heap) : 0 < h.size :=
  (Array.getElem?_eq_some_iff.1 h.marker).1

@[simp] theorem toList_append (h : Heap) (data : List UInt8) :
    (h.append data).bytes.toList = h.bytes.toList ++ data := by
  simp [append]

@[simp] theorem next_append (h : Heap) (data : List UInt8) :
    (h.append data).next = h.next + data.length := by
  rw [next, next, ← Array.length_toList, ← Array.length_toList, toList_append, List.length_append]

end Heap

end DeclArchive
