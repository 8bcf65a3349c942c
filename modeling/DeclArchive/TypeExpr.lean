/-!
# Type expressions

A C or Objective-C type as a tree. Structs, unions and interfaces are named, never inlined, so a
tree is complete in itself; `references` lists the names it leaves to others. `height` counts
the levels of a tree, a leaf being one level, and `nodes` its nodes.
-/

namespace DeclArchive

/-- Types without a payload. -/
inductive Scalar where
  | void
  | bool
  | short
  | uShort
  | int
  | uInt
  | long
  | uLong
  | longLong
  | uLongLong
  | char
  | uChar
  | unichar
  | cString
  | float
  | double
  | vaList
  | selector
  | instanceType
  | protocol
  deriving DecidableEq, Repr

/-- Objects whose class is not named: `id` and `Class`. -/
inductive ObjectKind where
  | id
  | metaclass
  deriving DecidableEq, Repr

/-- Types that hold one other type and nothing else. -/
inductive IndirectKind where
  | pointer
  | incompleteArray
  deriving DecidableEq, Repr

/-- Types that repeat another type a fixed number of times. -/
inductive SizedKind where
  | constantArray
  | extVector
  deriving DecidableEq, Repr

/-- Types that can be called. -/
inductive CallableKind where
  | block
  | functionPointer
  deriving DecidableEq, Repr

/-- Types that stand for a declaration by its name. -/
inductive NamedKind where
  | struct
  | union
  | interface
  deriving DecidableEq, Repr

/-- Whether the fields follow one another or lie on top of one another. -/
inductive RecordKind where
  | struct
  | union
  deriving DecidableEq, Repr

mutual

/-- A type. A signature is a return type followed by the types of the parameters. -/
inductive TypeExpr where
  | scalar (kind : Scalar)
  | object (kind : ObjectKind) (protocols : List String)
  | indirect (kind : IndirectKind) (target : TypeExpr)
  | sized (kind : SizedKind) (element : TypeExpr) (size : UInt32)
  | callable (kind : CallableKind) (signature : List TypeExpr)
  | named (kind : NamedKind) (name : String)
  | anonymous (kind : RecordKind) (fields : List Field)

/-- A named member of a struct or union. -/
structure Field where
  name : String
  type : TypeExpr

end

instance : Inhabited TypeExpr := ⟨.scalar .void⟩

/-! ## Measures -/

mutual

/-- The number of levels of a type; a leaf has one. -/
def TypeExpr.height : TypeExpr → Nat
  | .scalar _ | .object _ _ | .named _ _ => 1
  | .indirect _ target => target.height + 1
  | .sized _ element _ => element.height + 1
  | .callable _ signature => heightOfTypes signature + 1
  | .anonymous _ fields => heightOfFields fields + 1

/-- The height of the highest of these types. -/
def heightOfTypes : List TypeExpr → Nat
  | [] => 0
  | t :: ts => max t.height (heightOfTypes ts)

/-- The height of the highest of these fields. -/
def heightOfFields : List Field → Nat
  | [] => 0
  | ⟨_, t⟩ :: fs => max t.height (heightOfFields fs)

end

mutual

/-- The number of nodes of a type. -/
def TypeExpr.nodes : TypeExpr → Nat
  | .scalar _ | .object _ _ | .named _ _ => 1
  | .indirect _ target => target.nodes + 1
  | .sized _ element _ => element.nodes + 1
  | .callable _ signature => nodesOfTypes signature + 1
  | .anonymous _ fields => nodesOfFields fields + 1

/-- The number of nodes of these types together. -/
def nodesOfTypes : List TypeExpr → Nat
  | [] => 0
  | t :: ts => t.nodes + nodesOfTypes ts

/-- The number of nodes of the types of these fields together. -/
def nodesOfFields : List Field → Nat
  | [] => 0
  | ⟨_, t⟩ :: fs => t.nodes + nodesOfFields fs

end

/-! ## References -/

mutual

/-- The names of the declarations a type refers to, in the order in which they are written. -/
def TypeExpr.references : TypeExpr → List String
  | .scalar _ | .object _ _ => []
  | .named _ name => [name]
  | .indirect _ target => target.references
  | .sized _ element _ => element.references
  | .callable _ signature => namesInTypes signature
  | .anonymous _ fields => namesInFields fields

/-- The names these types refer to. -/
def namesInTypes : List TypeExpr → List String
  | [] => []
  | t :: ts => t.references ++ namesInTypes ts

/-- The names the types of these fields refer to. -/
def namesInFields : List Field → List String
  | [] => []
  | ⟨_, t⟩ :: fs => t.references ++ namesInFields fs

end

theorem namesInTypes_eq (ts : List TypeExpr) :
    namesInTypes ts = ts.flatMap TypeExpr.references := by
  induction ts with
  | nil => rfl
  | cons t ts ih => rw [namesInTypes, ih, List.flatMap_cons]

theorem namesInFields_eq (fs : List Field) :
    namesInFields fs = fs.flatMap fun f => f.type.references := by
  induction fs with
  | nil => rfl
  | cons f fs ih => cases f; rw [namesInFields, ih, List.flatMap_cons]

end DeclArchive
