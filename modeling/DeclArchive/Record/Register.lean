import DeclArchive.NameIndex
import DeclArchive.Record.Write

/-!
# Registering declarations

A `Builder` writes records and keeps the index of public names. A declaration enters the index once
its record is complete, and not before: a declaration whose record fails leaves the index alone.
-/

namespace DeclArchive

/-- A writer and the index of what it wrote. -/
structure Builder where
  writer : Writer
  index : NameIndex

/-- Computations that write records and register them, and may stop. -/
abbrev Build (α : Type) := ExceptT Error (StateM Builder) α

namespace Build

/-- A computation that only writes. -/
def write {α : Type} (x : Write α) : Build α :=
  ExceptT.mk fun ⟨writer, index⟩ =>
    let (result, writer) := x.run.run writer
    (result, ⟨writer, index⟩)

/-- Adds an entry to the index; warns if the name has one. -/
def addName (name : String) (o : Offset) : Build Unit := do
  if (← get).index.contains name then write (Write.note (.duplicateName name))
  modify fun ⟨writer, index⟩ => ⟨writer, index.add name o⟩

/-- Writes a declaration and registers it under its public name. -/
def declare (module : UInt16) (d : Declaration) : Build Offset := do
  let record ← write (d.write module)
  addName d.info.publicName record
  write (Write.note (.recordWritten d.body.kind d.info.publicName record))
  return record

/-- Writes the index. -/
def writeIndex : Build (List Offset) := do
  let index := (← get).index
  write index.write

end Build

end DeclArchive
