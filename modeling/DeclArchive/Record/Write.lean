import DeclArchive.Record.Flags
import DeclArchive.Record.Initializers
import DeclArchive.Record.VersionByte
import DeclArchive.TypeExpr.Encode

/-!
# Writing records

A declaration, a method and a property each become a record of fixed shape, which comes after
everything it points at:

```text
base          names:ptr  flags:1  module:2  introduced:1
function      base  signature:ptr
var           base  type:ptr
jsCode        base  code:ptr
struct/union  base  field names:ptr  field types:ptr
protocol      base  instance methods:ptr  static methods:ptr  properties:ptr  protocols:ptr
                    first initializer:2
interface     (as a protocol)  base name:ptr
method        base  signature:ptr  encoding:ptr
property      base  getter:ptr  setter:ptr
```

`names` leads to the name, or, if the public name differs, to a pair of pointers to the public and
the internal name. Methods and properties are sorted by public name, protocols by name. An empty
list and a missing text are the null offset.
-/

namespace DeclArchive

/-! ## Common parts -/

/-- Writes the names of a record and returns what its first pointer has to lead to. -/
def Info.writeNames (info : Info) : Write Offset := do
  if info.hasDistinctName then
    let shown ← Write.text info.publicName
    let name ← Write.text info.name
    let pair ← Write.pointer shown
    let _ ← Write.pointer name
    return pair
  else
    Write.text info.name

/-- Writes the part of a record that all kinds share, and returns where it begins. -/
def Info.writeBase (info : Info) (names : Offset) (flags : UInt8) (module : UInt16) :
    Write Offset := do
  let start ← Write.pointer names
  let _ ← Write.byte flags
  let _ ← Write.uint16 module
  let _ ← Write.byte (VersionByte.encode info.introduced)
  return start

/-- Writes a text, or nothing for an empty one. -/
def writeTextOrNull (s : String) : Write Offset :=
  if s.isEmpty then return .null else Write.text s

/-! ## Methods and properties -/

/-- Writes a method and returns where its record is. -/
def Method.write (module : UInt16) (m : Method) : Write Offset := do
  let names ← m.info.writeNames
  let signature ← writeSignature m.signature
  let encoding ← writeTextOrNull m.encoding
  let record ← m.info.writeBase names (FlagByte.ofMethod m.info m.flags) module
  let _ ← Write.pointer signature
  let _ ← Write.pointer encoding
  return record

/-- Writes an accessor, or nothing if there is none. -/
def writeAccessor (module : UInt16) : Option Method → Write Offset
  | none => return .null
  | some m => m.write module

/-- Writes a property and returns where its record is. -/
def Property.write (module : UInt16) (p : Property) : Write Offset := do
  let names ← p.info.writeNames
  let getter ← writeAccessor module p.getter?
  let setter ← writeAccessor module p.setter?
  let flags := FlagByte.ofProperty p.info p.optional p.getter?.isSome p.setter?.isSome
  let record ← p.info.writeBase names flags module
  let _ ← Write.pointer getter
  let _ ← Write.pointer setter
  return record

/-! ## Members -/

/-- The values in the order of their public names; equal names keep their order. -/
def sortByPublicName {α : Type} (info : α → Info) (xs : List α) : List α :=
  xs.mergeSort fun x y => decide ((info x).publicName ≤ (info y).publicName)

/-- The names in order. -/
def sortNames (names : List String) : List String :=
  names.mergeSort fun a b => decide (a ≤ b)

/-- Where the members of a class are. -/
structure WrittenMembers where
  instanceMethods : Offset
  staticMethods : Offset
  properties : Offset
  protocols : Offset
  firstInitializer : Int16

/-- The place of the first initializer; warns if the initializers are not one block. -/
def noteInitializers (methods : List Method) : Write Int16 := do
  if let some warning := initializerWarning? methods then Write.note warning
  match initializerIndex methods with
  | .ok index => return index
  | .error e => throw e

/-- Writes members and the arrays of them. -/
def Members.write (module : UInt16) (members : Members) : Write WrittenMembers := do
  let instanceMethods := sortByPublicName Method.info members.instanceMethods
  let firstInitializer ← noteInitializers instanceMethods
  let instanceRecords ← instanceMethods.mapM (Method.write module)
  let staticMethods := sortByPublicName Method.info members.staticMethods
  let staticRecords ← staticMethods.mapM (Method.write module)
  let properties := sortByPublicName Property.info members.properties
  let propertyRecords ← properties.mapM (Property.write module)
  let protocolNames ← Write.texts (sortNames members.protocols)
  return {
    instanceMethods := ← Write.arrayOrNull instanceRecords
    staticMethods := ← Write.arrayOrNull staticRecords
    properties := ← Write.arrayOrNull propertyRecords
    protocols := ← Write.arrayOrNull protocolNames
    firstInitializer }

/-- Writes the part of a record that leads to members. -/
def WrittenMembers.writePointers (m : WrittenMembers) : Write Unit := do
  let _ ← Write.pointer m.instanceMethods
  let _ ← Write.pointer m.staticMethods
  let _ ← Write.pointer m.properties
  let _ ← Write.pointer m.protocols
  let _ ← Write.int16 m.firstInitializer

/-! ## Declarations -/

/-- Writes the names and the types of fields; both are null if there are none. -/
def writeFields (fields : List Field) : Write (Offset × Offset) := do
  if fields.isEmpty then
    return (.null, .null)
  else
    let names ← Write.texts (fields.map Field.name)
    let nameArray ← Write.array names
    let types ← writeSignature (fields.map Field.type)
    return (nameArray, types)

/-- Writes a declaration and returns where its record is. A category is refused before anything is
written. -/
def Declaration.write (module : UInt16) (d : Declaration) : Write Offset := do
  let base (tag : RecordTag) (names : Offset) : Write Offset :=
    d.info.writeBase names (FlagByte.ofDeclaration d.info tag) module
  match d.body with
  | .function signature flags =>
    let names ← d.info.writeNames
    let types ← writeSignature signature
    let record ← d.info.writeBase names (FlagByte.ofFunction d.info flags) module
    let _ ← Write.pointer types
    return record
  | .global type =>
    let names ← d.info.writeNames
    let run ← type.write
    let record ← base .var names
    let _ ← Write.pointer run
    return record
  | .code text =>
    let names ← d.info.writeNames
    let code ← Write.text text
    let record ← base .jsCode names
    let _ ← Write.pointer code
    return record
  | .record kind fields =>
    let names ← d.info.writeNames
    let (fieldNames, fieldTypes) ← writeFields fields
    let record ← base (.ofRecord kind) names
    let _ ← Write.pointer fieldNames
    let _ ← Write.pointer fieldTypes
    return record
  | .protocol members =>
    let names ← d.info.writeNames
    let offsets ← members.write module
    let record ← base .protocol names
    offsets.writePointers
    return record
  | .interface base? members =>
    let names ← d.info.writeNames
    let offsets ← members.write module
    let baseName ← writeTextOrNull (base?.getD "")
    let record ← base .interface names
    offsets.writePointers
    let _ ← Write.pointer baseName
    return record
  | .category extended _ => throw (.broken (.unmergedCategory d.info.name extended))

/-- The length of the record of a declaration; a category has none. -/
def Body.recordSize (f : Format) : Body → Nat
  | .function _ _ | .global _ | .code _ => 2 * f.pointerWidth + 4
  | .record _ _ => 3 * f.pointerWidth + 4
  | .protocol _ => 5 * f.pointerWidth + 6
  | .interface _ _ => 6 * f.pointerWidth + 6
  | .category _ _ => 0

end DeclArchive
