import DeclArchive.LittleEndian
import DeclArchive.Log
import Std.Data.HashMap

/-!
# Writing to the heap

`Write` is the monad of everything that appends to a heap. Each operation returns the offset at
which its own bytes begin, so a record can point at data written before it. A failing operation
keeps what it wrote before it failed: the writer it leaves is an extension of the one it found.

Texts are interned: `Write.text` writes a text once and returns the same offset from then on.
-/

namespace DeclArchive

/-- The heap under construction, the texts already in it, and the log of the run. -/
structure Writer where
  format : Format
  heap : Heap := .empty
  interned : Std.HashMap String Offset := {}
  log : Log := #[]

/-- A writer over an empty heap. -/
def Writer.empty (widths : Widths) : Except Error Writer :=
  return { format := ← widths.check }

/-- Computations that append to a heap and may stop. -/
abbrev Write (α : Type) := ExceptT Error (StateM Writer) α

namespace Write

/-! ## Bytes and numbers -/

/-- Appends bytes. -/
def bytes (data : List UInt8) : Write Offset :=
  modifyGet fun ⟨format, heap, interned, log⟩ =>
    (heap.next, ⟨format, heap.append data, interned, log⟩)

/-- Appends the lowest `width` bytes of `n`. -/
def number (width n : Nat) : Write Offset :=
  bytes (LittleEndian.encode width n)

def byte (v : UInt8) : Write Offset := bytes [v]

def uint16 (v : UInt16) : Write Offset := number 2 v.toNat

def int16 (v : Int16) : Write Offset := number 2 v.toUInt16.toNat

def uint32 (v : UInt32) : Write Offset := number 4 v.toNat

def uint64 (v : UInt64) : Write Offset := number 8 v.toNat

/-- The offset at which the next byte will be. -/
def position : Write Offset := return (← get).heap.next

/-- Adds an event to the log. -/
def note (event : Event) : Write Unit :=
  modify fun ⟨format, heap, interned, log⟩ => ⟨format, heap, interned, log.push event⟩

/-! ## Texts -/

/-- Appends a text and a zero byte, whatever is in the heap already. -/
def freshText (s : String) : Write Offset :=
  bytes (Utf8.encode s ++ [0])

/-- Remembers where a text is. -/
def remember (s : String) (start : Offset) : Write Unit :=
  modify fun ⟨format, heap, interned, log⟩ => ⟨format, heap, interned.insert s start, log⟩

/-- The offset of a text, which is appended the first time. -/
def text (s : String) : Write Offset := do
  match (← get).interned[s]? with
  | some start => return start
  | none =>
    let start ← freshText s
    remember s start
    return start

/-- The offsets of several texts. -/
def texts (ss : List String) : Write (List Offset) :=
  ss.mapM text

/-! ## Pointers and arrays -/

/-- Appends `target` in the pointer width and returns the place of the pointer. -/
def pointer (target : Offset) : Write Offset := do
  let format := (← get).format
  if format.largestOffset < target then
    throw (.offsetOverflow target format.pointer)
  number format.pointerWidth target

/-- Appends an array count in its width. -/
def count (n : Nat) : Write Offset := do
  let format := (← get).format
  if format.largestCount < n then
    throw (.countOverflow n format.count)
  number format.countWidth n

/-- Appends pointers one after another. -/
def pointers (targets : List Offset) : Write Unit :=
  targets.forM fun target => do let _ ← pointer target

/-- Appends a count and that many pointers. -/
def array (targets : List Offset) : Write Offset := do
  let start ← count targets.length
  pointers targets
  return start

/-- Appends an array, or nothing for an empty one. -/
def arrayOrNull (targets : List Offset) : Write Offset :=
  if targets.isEmpty then return .null else array targets

end Write

end DeclArchive
