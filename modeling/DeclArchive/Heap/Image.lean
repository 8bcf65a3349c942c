import DeclArchive.Heap
import DeclArchive.LittleEndian

/-!
# Reading bytes

An `Image` is a run of bytes of unknown origin together with the widths to read it with. Every
read looks at a position and either finds all its bytes there or reports the position. A loop over
a stored count stops at the first element that is not there, so it never outruns the bytes.

The room for what such a loop reads is left out. It is asked for in advance, for as many elements as
the count says or as there are bytes, whichever is less, so fewer than `2 ^ 58` bytes never ask for more
than one block of memory has. `Heap.reserve` and `NameIndex.reserve` take a capacity that nothing
bounds; there the limit is part of the operation.
-/

namespace DeclArchive

/-- Bytes and the widths to read them with. -/
structure Image where
  bytes : Array UInt8
  format : Format

/-- The position `count` bytes after `o`. -/
def positionAfter (o : Offset) (count : Nat) : Except Error Offset :=
  if o + count ≤ largestPosition then .ok (o + count) else .error (.fault .positionOverflow)

namespace Image

/-- An image with these widths, if they are usable. -/
def ofBytes (bytes : Array UInt8) (widths : Widths) : Except Error Image :=
  return ⟨bytes, ← widths.check⟩

/-- The number of bytes. -/
def size (im : Image) : Nat := im.bytes.size

/-- The bytes from `o` on as an image of their own. There is none past the end. -/
def tail (im : Image) (o : Offset) : Except Error Image :=
  if im.size < o then .error (.fault .outOfRange)
  else .ok ⟨im.bytes.extract o im.size, im.format⟩

/-! ## Numbers -/

/-- The `len` bytes at `o`. -/
def bytesAt (im : Image) (o : Offset) (len : Nat) : Except Error (List UInt8) :=
  if o + len ≤ im.size then .ok (im.bytes.extract o (o + len)).toList
  else .error (.malformed o (.tooFewBytes len im.size))

/-- The number in the `width` bytes at `o`. -/
def number (im : Image) (o : Offset) (width : Nat) : Except Error Nat :=
  return LittleEndian.decode (← im.bytesAt o width)

def byte (im : Image) (o : Offset) : Except Error UInt8 :=
  return UInt8.ofNat (← im.number o 1)

def uint16 (im : Image) (o : Offset) : Except Error UInt16 :=
  return UInt16.ofNat (← im.number o 2)

def int16 (im : Image) (o : Offset) : Except Error Int16 :=
  return (← im.uint16 o).toInt16

def uint32 (im : Image) (o : Offset) : Except Error UInt32 :=
  return UInt32.ofNat (← im.number o 4)

def uint64 (im : Image) (o : Offset) : Except Error UInt64 :=
  return UInt64.ofNat (← im.number o 8)

/-- The number in the `width` bytes at `o`, of which there may be eight. -/
def uint (im : Image) (o : Offset) (width : UInt8) : Except Error Nat := do
  let raw ← im.bytesAt o width.toNat
  if 8 < raw.length then throw (.fault .wideNumber)
  return LittleEndian.decode raw

/-! ## Texts -/

/-- The bytes from `o` up to the first zero, which has to be among the next `fuel` bytes; `read`
holds the bytes before `o` in reverse. -/
def scan (im : Image) : (fuel : Nat) → Offset → (read : List UInt8) → Option (List UInt8)
  | 0, _, _ => none
  | fuel + 1, o, read =>
    match im.bytes[o]? with
    | none => none
    | some b => if b = 0 then some read.reverse else im.scan fuel (o + 1) (b :: read)

/-- The bytes from `o` up to the first zero, if there is one. There is no such run of bytes past the
end. -/
def untilZero (im : Image) (o : Offset) : Except Error (Option (List UInt8)) :=
  if im.size < o then .error (.fault .outOfRange) else .ok (im.scan (im.size - o) o [])

/-- The text at `o`, which ends at a zero byte. -/
def text (im : Image) (o : Offset) : Except Error String := do
  if o.isNull then throw (.malformed 0 .nullText)
  let _ ← im.bytesAt o 1
  match ← im.untilZero o with
  | none => throw (.malformed o .unterminatedText)
  | some raw =>
    match Utf8.decode raw with
    | .error flaw => throw (.malformed o (.notUtf8 flaw))
    | .ok s => return s

/-- The text at `o`, or nothing at the null offset. -/
def text? (im : Image) (o : Offset) : Except Error (Option String) :=
  match o.present? with
  | none => return none
  | some o => return some (← im.text o)

/-- The texts at these offsets. -/
def texts (im : Image) (os : List Offset) : Except Error (List String) :=
  os.mapM im.text

/-! ## Pointers and arrays -/

/-- The pointer stored at `o`. -/
def pointer (im : Image) (o : Offset) : Except Error Offset :=
  im.uint o im.format.pointer

/-- The position past the pointer at `o`. -/
def pastPointer (im : Image) (o : Offset) : Except Error Offset :=
  positionAfter o im.format.pointerWidth

/-- The array count stored at `o`. -/
def count (im : Image) (o : Offset) : Except Error Nat :=
  im.uint o im.format.count

/-- The `n` pointers stored from `o` on; `read` holds those before `o` in reverse. -/
def pointersFrom (im : Image) : (n : Nat) → Offset → (read : List Offset) →
    Except Error (List Offset)
  | 0, _, read => .ok read.reverse
  | n + 1, o, read => do
    let target ← im.pointer o
    let next ← im.pastPointer o
    im.pointersFrom n next (target :: read)

/-- The pointers of the array at `o`. -/
def array (im : Image) (o : Offset) : Except Error (List Offset) := do
  let n ← im.count o
  let first ← positionAfter o im.format.countWidth
  im.pointersFrom n first []

/-- The pointers of the array at `o`; the null offset is an empty array. -/
def arrayOrEmpty (im : Image) (o : Offset) : Except Error (List Offset) :=
  match o.present? with
  | none => return []
  | some o => im.array o

end Image

end DeclArchive
