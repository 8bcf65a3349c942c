import DeclArchive.Declaration
import DeclArchive.Error

/-!
# Forests

A forest holds declarations in an arena, and modules that list them by their position there. A
module may list a position that the arena does not have, and may list one twice; `listed` is what
its modules list, in order.

A forest that does not come from a text is put together by `Planting`: modules and declarations are
added at the end. A step that names a module which was never added is a fault; what it stored before
that stays.
-/

namespace DeclArchive

/-! ## Arenas -/

/-- Values that are only ever added; a value is found again by its position. -/
structure Arena (α : Type) where
  items : Array α := #[]

namespace Arena

variable {α : Type}

/-- The arena without values. -/
def empty : Arena α := ⟨#[]⟩

/-- Adds a value and returns its position, which has four bytes. -/
def push (a : Arena α) (x : α) : UInt32 × Arena α :=
  (UInt32.ofNat a.items.size, ⟨a.items.push x⟩)

/-- The value at a position. -/
def get? (a : Arena α) (i : UInt32) : Option α := a.items[i.toNat]?

end Arena

/-- The position of a declaration in a forest. -/
abbrev DeclId := UInt32

/-! ## Modules and forests -/

/-- A module and what it lists. -/
structure Module where
  name : String
  declarations : Array DeclId := #[]
  deriving DecidableEq

/-- The module with one more position at the end of its list. -/
def Module.push (m : Module) (id : DeclId) : Module :=
  { m with declarations := m.declarations.push id }

/-- The name up to the first dot. -/
def Module.topLevel (m : Module) : String :=
  String.ofList (m.name.toList.takeWhile (· ≠ '.'))

structure Forest where
  declarations : Arena Declaration := .empty
  modules : Array Module := #[]

namespace Forest

/-- The forest without modules and declarations. -/
def empty : Forest := {}

/-- The declaration at a position. -/
def get? (f : Forest) (id : DeclId) : Option Declaration := f.declarations.get? id

/-- How many positions the modules list. -/
def listedCount (f : Forest) : Nat :=
  f.modules.foldl (fun n m => n + m.declarations.size) 0

/-- What the modules list: the module and the declaration, where there is one. -/
def listed (f : Forest) : List (Module × Option Declaration) :=
  f.modules.toList.flatMap fun m => m.declarations.toList.map fun id => (m, f.get? id)

/-- The listed declarations that exist and can be stored. -/
def storable (f : Forest) : List Declaration :=
  (f.listed.filterMap Prod.snd).filter fun d => !d.isCategory

/-! ## Putting a forest together -/

/-- Computations that add to a forest and may stop. -/
abbrev Planting (α : Type) := ExceptT Error (StateM Forest) α

/-- Adds a module at the end and returns its place. -/
def pushModule (name : String) : Planting Nat :=
  modifyGet fun f => (f.modules.size, { f with modules := f.modules.push { name } })

/-- Stores a declaration and returns its position. -/
def store (d : Declaration) : Planting DeclId :=
  modifyGet fun f =>
    let (id, declarations) := f.declarations.push d
    (id, { f with declarations })

/-- The forest with one more position listed in the module at `place`, if there is one. -/
def withListed (f : Forest) (place : Nat) (id : DeclId) : Forest :=
  { f with modules := f.modules.modify place (·.push id) }

/-- Lists a position in the module at `place`, which has to be there. -/
def attach (place : Nat) (id : DeclId) : Planting Unit := do
  if (← get).modules.size ≤ place then throw (.fault .unknownModule)
  modify fun f => f.withListed place id

/-- Stores a declaration and lists it in the module at `place`, which has to be there. -/
def pushDeclaration (place : Nat) (d : Declaration) : Planting DeclId := do
  let id ← store d
  attach place id
  return id

end Forest

end DeclArchive
