import DeclArchive.Record.VersionByte
import DeclArchive.Stored
import DeclArchive.TypeExpr.Decode

/-!
# Reading records

The parts of a record are read at positions that follow from its own, and what its pointers lead to
is read where they lead. A reader of records needs no index: any offset may be tried.
-/

namespace DeclArchive

namespace Image

/-! ## Common parts -/

/-- The public and the internal name of the record at `record`. -/
def names (im : Image) (record : Offset) : Except Error (String × String) := do
  let target ← im.pointer record
  let flags ← im.byte (← im.pastPointer record)
  if FlagByte.has flags FlagByte.distinctName then
    let shown ← im.text (← im.pointer target)
    let name ← im.text (← im.pointer (← im.pastPointer target))
    return (shown, name)
  else
    let name ← im.text target
    return (name, name)

/-- The base of the record at `record` and the position past it. -/
def base (im : Image) (record : Offset) : Except Error (StoredBase × Offset) := do
  let (publicName, name) ← im.names record
  let o ← im.pastPointer record
  let flagByte ← im.byte o
  let moduleIndex ← im.uint16 (← positionAfter o 1)
  let introduced := VersionByte.decode (← im.byte (← positionAfter o 3))
  return (⟨publicName, name, flagByte, moduleIndex, introduced⟩, ← positionAfter o 4)

/-! ## Methods and properties -/

/-- The method whose record is at `record`. -/
def method (im : Image) (record : Offset) : Except Error StoredMethod := do
  let (base, o) ← im.base record
  let signature ← readSignature im (← im.pointer o)
  let encoding? ← im.text? (← im.pointer (← im.pastPointer o))
  return ⟨base, signature, encoding?⟩

/-- The method whose record is at `record`, if that is not null. -/
def accessor (im : Image) (record : Offset) : Except Error (Option StoredMethod) :=
  match record.present? with
  | none => return none
  | some record => return some (← im.method record)

/-- The property whose record is at `record`. -/
def property (im : Image) (record : Offset) : Except Error StoredProperty := do
  let (base, o) ← im.base record
  let getter ← im.pointer o
  let setter ← im.pointer (← im.pastPointer o)
  return ⟨base, ← im.accessor getter, ← im.accessor setter⟩

/-! ## Members and fields -/

/-- The pointer at `o` and the position past it. The position moves on before the pointer is
looked at. -/
def nextPointer (im : Image) (o : Offset) : Except Error (Offset × Offset) := do
  let target := im.pointer o
  let next ← im.pastPointer o
  return (← target, next)

/-- The members whose pointers begin at `o`, and the position past them. -/
def members (im : Image) (o : Offset) : Except Error (StoredMembers × Offset) := do
  let (instanceMethods, o) ← im.nextPointer o
  let (staticMethods, o) ← im.nextPointer o
  let (properties, o) ← im.nextPointer o
  let (protocols, o) ← im.nextPointer o
  let instanceMethods ← (← im.arrayOrEmpty instanceMethods).mapM im.method
  let staticMethods ← (← im.arrayOrEmpty staticMethods).mapM im.method
  let properties ← (← im.arrayOrEmpty properties).mapM im.property
  let protocols ← im.texts (← im.arrayOrEmpty protocols)
  let firstInitializer ← im.int16 o
  return (⟨instanceMethods, staticMethods, properties, protocols, firstInitializer⟩, ← positionAfter o 2)

/-- The signature at `o`; the null offset is an empty one. -/
def signatureOrEmpty (im : Image) (o : Offset) : Except Error (List TypeExpr) :=
  match o.present? with
  | none => return []
  | some o => readSignature im o

/-- The fields whose two pointers begin at `o`. -/
def fields (im : Image) (o : Offset) : Except Error (List Field) := do
  let namesAt ← im.pointer o
  let typesAt ← im.pointer (← im.pastPointer o)
  let names ← im.arrayOrEmpty namesAt
  let types ← im.signatureOrEmpty typesAt
  if names.length ≠ types.length then
    throw (.malformed o (.fieldMismatch names.length types.length))
  return (← im.texts names).zipWith Field.mk types

/-! ## Declarations -/

/-- The body of a record with the given tag, whose base ends at `o`. -/
def body (im : Image) (record o : Offset) : RecordTag → Except Error StoredBody
  | .function => return .function (← readSignature im (← im.pointer o))
  | .var => return .global (← readType im (← im.pointer o)).1
  | .jsCode => return .code (← im.text (← im.pointer o))
  | .struct => return .record .struct (← im.fields o)
  | .union => return .record .union (← im.fields o)
  | .protocol => return .protocol (← im.members o).1
  | .interface => do
    let (members, o) ← im.members o
    let base? ← im.text? (← im.pointer o)
    return .interface base? members
  | .undefined => throw (.malformed record .untaggedRecord)

end Image

end DeclArchive
