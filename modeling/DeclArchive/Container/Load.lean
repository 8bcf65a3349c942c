import DeclArchive.Container.Header
import DeclArchive.Log
import DeclArchive.NameIndex.Hash
import DeclArchive.Stored.Read

/-!
# Loading a container

`Container.parse` reads the header, the module names and the index slots of bytes of any origin;
records are read when asked for. A name is looked up as it was stored: its hash picks a bucket, and
the records of the bucket are compared by their own names.
-/

namespace DeclArchive

/-- A container whose header and tables were read. -/
structure Container where
  header : Header
  heap : Image
  modules : Array String
  slots : Array Offset

namespace Container

/-- Reads the header and the tables. -/
def parse (bytes : Array UInt8) : Except Error Container := do
  let some pointerWidth := bytes[0]? | throw (.malformed 0 .shortHeader)
  let some countWidth := bytes[1]? | throw (.malformed 0 .shortHeader)
  let widths : Widths := ⟨pointerWidth, countWidth⟩
  let file ← Image.ofBytes bytes widths
  let moduleTable ← file.pointer 2
  let o ← file.pastPointer 2
  let globalTable ← file.pointer o
  let o ← file.pastPointer o
  let heapStart ← file.pointer o
  if bytes.size ≤ heapStart then throw (.malformed heapStart .heapPastEnd)
  let heap ← file.tail heapStart
  let modules ← heap.texts (← file.array moduleTable)
  let slots ← file.array globalTable
  return ⟨⟨widths, moduleTable, globalTable, heapStart⟩, heap, modules.toArray, slots.toArray⟩

/-- The event that reports an opened container. -/
def event (c : Container) : Event :=
  .containerOpened c.modules.size c.slots.size c.heap.size

/-- Reads the header and the tables, and reports success. -/
def load (bytes : Array UInt8) : Except Error Container × Log :=
  match parse bytes with
  | .error e => (.error e, #[])
  | .ok c => (.ok c, #[c.event])

/-- The number of buckets. -/
def capacity (c : Container) : Nat := c.slots.size

/-! ## Records -/

/-- The offsets of all registered records, bucket by bucket. -/
def records (c : Container) : Except Error (List Offset) :=
  return (← c.slots.toList.mapM c.heap.arrayOrEmpty).flatten

/-- The declaration whose record is at `record`. -/
def declaration (c : Container) (record : Offset) : Except Error StoredDeclaration := do
  let (base, o) ← c.heap.base record
  let some module := c.modules[base.moduleIndex.toNat]?
    | throw (.malformed record (.unknownModule base.moduleIndex))
  let body ← c.heap.body record o (RecordTag.ofByte base.flagByte)
  return ⟨record, base, module, body⟩

/-- All registered declarations, bucket by bucket. -/
def declarations (c : Container) : Except Error (List StoredDeclaration) := do
  (← c.records).mapM c.declaration

/-! ## Names -/

/-- The first of these records whose public name is `name`. -/
def firstNamed (c : Container) (name : String) : List Offset → Except Error (Option Offset)
  | [] => return none
  | record :: rest => do
    let (publicName, _) ← c.heap.names record
    if publicName = name then return some record else c.firstNamed name rest

/-- The slot of the bucket of `name`. -/
def slot (c : Container) (name : String) : Except Error Offset := do
  let bucket ← bucketIn name c.slots.size
  match c.slots[bucket]? with
  | some slot => return slot
  | none => throw (.fault .outOfRange)

/-- The record registered under `name`. -/
def lookup (c : Container) (name : String) : Except Error (Option Offset) := do
  if c.slots.isEmpty then
    return none
  else
    c.firstNamed name (← c.heap.arrayOrEmpty (← c.slot name))

/-- The record registered under `name`, which has to be there. -/
def resolve (c : Container) (name : String) : Except Error Offset := do
  match ← c.lookup name with
  | some record => return record
  | none => throw (.unresolved name)

/-- The declaration registered under `name`. -/
def find (c : Container) (name : String) : Except Error (Option StoredDeclaration) := do
  match ← c.lookup name with
  | some record => return some (← c.declaration record)
  | none => return none

/-- Checks that every name in a type of a registered declaration is registered. -/
def checkReferences (c : Container) : Except Error Unit := do
  (← c.records).forM fun record => do
    let d ← c.declaration record
    d.types.forM fun type => type.references.forM fun name => do
      let _ ← c.resolve name

end Container

end DeclArchive
