import DeclArchive.Declaration.Forest
import DeclArchive.Declaration.Json
import DeclArchive.Json.Read

/-!
# Forests as JSON

An arena is a plain list, and a module lists positions in it as numbers. Nothing checks that a
listed position exists.
-/

namespace DeclArchive

/-! ## Arenas and modules -/

def Arena.toJson {α : Type} (toJson : α → Json) (a : Arena α) : Json :=
  .list (a.items.toList.map toJson)

def Arena.ofJson {α : Type} (read : Json.As α) : Json.As (Arena α) := fun v =>
  return ⟨(← v.asList read).toArray⟩

def Module.toJson (m : Module) : Json := .object [
  ("name", .text m.name),
  ("declarations", .list (m.declarations.toList.map fun id => .integer id.toNat))]

def Module.ofJson : Json.As Module := fun v => do
  let fields ← v.asObject
  let name ← Json.required fields "name" Json.asText
  let ids ← Json.withDefault fields "declarations" [] (Json.asList Json.asUInt32)
  return ⟨name, ids.toArray⟩

/-! ## Forests -/

def Forest.toJson (f : Forest) : Json := .object [
  ("declarations", f.declarations.toJson Declaration.toJson),
  ("modules", .list (f.modules.toList.map Module.toJson))]

def Forest.ofJson : Json.As Forest := fun v => do
  let fields ← v.asObject
  let declarations ← Json.required fields "declarations" (Arena.ofJson Declaration.ofJson)
  let modules ← Json.required fields "modules" (Json.asList Module.ofJson)
  return ⟨declarations, modules.toArray⟩

/-- The forest with this text; the text has to be a value, and the value a forest. -/
def Forest.ofText (s : String) : Except Mismatch Forest :=
  match Json.ofText? s with
  | none => .error (.wrongKind "a JSON text")
  | some v => Forest.ofJson v

end DeclArchive
