import DeclArchive.Declaration.Forest
import DeclArchive.Record.Register

/-!
# Building a container

The forest is written in three steps: the names of the top-level modules, each once, in the order in
which they are first seen; the records of all listed declarations, module by module; the index. A
record refers to its module by the place of the name in the module table, which has two bytes.
-/

namespace DeclArchive

/-! ## Module table -/

/-- The top-level names, where they are, and the place of each. -/
structure ModuleNames where
  names : Array Offset := #[]
  places : Std.HashMap String Nat := {}

namespace ModuleNames

/-- Adds the top-level name of a module, unless it is there. -/
def add (table : ModuleNames) (m : Module) : Write ModuleNames := do
  let name := m.topLevel
  if table.places.contains name then
    return table
  else
    let place := table.names.size
    if 65535 < place then throw (.countOverflow place 2)
    let start ← Write.text name
    return ⟨table.names.push start, table.places.insert name place⟩

/-- Writes the top-level names of a forest. -/
def write (forest : Forest) : Write ModuleNames :=
  forest.modules.toList.foldlM add {}

/-- The place of a name. -/
def place? (table : ModuleNames) (name : String) : Option UInt16 :=
  table.places[name]?.map UInt16.ofNat

end ModuleNames

/-! ## Records -/

/-- Writes and registers what a module lists. -/
def declareModule (forest : Forest) (table : ModuleNames) (m : Module) : Build Unit := do
  let some place := table.place? m.topLevel | throw (.broken (.unlistedModule m.topLevel))
  m.declarations.toList.forM fun id => do
    let some d := forest.get? id | throw (.broken (.missingDeclaration m.name))
    let _ ← Build.declare place d

/-! ## Parts -/

/-- The parts of a container, before they have a place. -/
structure Parts where
  format : Format
  heap : Heap
  modules : List Offset
  slots : List Offset
  declarations : Nat

/-- Writes a forest. -/
def buildParts (forest : Forest) : Build Parts := do
  let table ← Build.write (ModuleNames.write forest)
  forest.modules.toList.forM (declareModule forest table)
  let slots ← Build.writeIndex
  let builder ← get
  return {
    format := builder.writer.format
    heap := builder.writer.heap
    modules := table.names.toList
    slots
    declarations := builder.index.size }

/-- The parts of the container for a forest, and the log of building them. -/
def Forest.build (forest : Forest) (widths : Widths) : Except Error Parts × Log :=
  match Writer.empty widths with
  | .error e => (.error e, #[])
  | .ok writer =>
    let start : Builder := ⟨writer, .emptyFor forest.storable.length⟩
    let (result, builder) := (buildParts forest).run.run start
    (result, builder.writer.log)

end DeclArchive
