import DeclArchive.TypeExpr

/-!
# Types in types

A type is one node above its children (`TypeExpr.children`), so what holds of types is said for a node
and follows for all of them (`TypeExpr.induction`). `TypeExpr.subtypes` lists a type and every type in
it, in the order in which they are written. The names that a type refers to are those of the named types
in the list (`TypeExpr.references_eq`).
-/

namespace DeclArchive

/-! ## Children -/

/-- The types directly below a type. -/
def TypeExpr.children : TypeExpr → List TypeExpr
  | .scalar _ | .object _ _ | .named _ _ => []
  | .indirect _ target => [target]
  | .sized _ element _ => [element]
  | .callable _ signature => signature
  | .anonymous _ fields => fields.map Field.type

section

variable {motive : TypeExpr → Prop}

mutual

/-- What holds of a type if it holds of its children holds of every type. -/
@[elab_as_elim]
theorem TypeExpr.induction (node : ∀ t : TypeExpr, (∀ c ∈ t.children, motive c) → motive t) :
    (t : TypeExpr) → motive t
  | .scalar _ | .object _ _ | .named _ _ => node _ nofun
  | .indirect _ target => node _ (List.forall_mem_singleton.2 (target.induction node))
  | .sized _ element _ => node _ (List.forall_mem_singleton.2 (element.induction node))
  | .callable _ signature => node _ (TypeExpr.induction_types node signature)
  | .anonymous _ fields => node _ (List.forall_mem_map.2 (TypeExpr.induction_fields node fields))

theorem TypeExpr.induction_types (node : ∀ t : TypeExpr, (∀ c ∈ t.children, motive c) → motive t) :
    (ts : List TypeExpr) → ∀ t ∈ ts, motive t
  | [] => nofun
  | t :: ts => List.forall_mem_cons.2 ⟨t.induction node, TypeExpr.induction_types node ts⟩

theorem TypeExpr.induction_fields (node : ∀ t : TypeExpr, (∀ c ∈ t.children, motive c) → motive t) :
    (fs : List Field) → ∀ f ∈ fs, motive f.type
  | [] => nofun
  | ⟨_, t⟩ :: fs => List.forall_mem_cons.2 ⟨t.induction node, TypeExpr.induction_fields node fs⟩

end

end

/-! ## Subtypes -/

mutual

/-- The type and all types in it, each before those that it holds. -/
def TypeExpr.subtypes (t : TypeExpr) : List TypeExpr :=
  t :: match t with
    | .scalar _ | .object _ _ | .named _ _ => []
    | .indirect _ target => target.subtypes
    | .sized _ element _ => element.subtypes
    | .callable _ signature => subtypesOfTypes signature
    | .anonymous _ fields => subtypesOfFields fields

/-- These types and all types in them. -/
def subtypesOfTypes : List TypeExpr → List TypeExpr
  | [] => []
  | t :: ts => t.subtypes ++ subtypesOfTypes ts

/-- The types of these fields and all types in them. -/
def subtypesOfFields : List Field → List TypeExpr
  | [] => []
  | ⟨_, t⟩ :: fs => t.subtypes ++ subtypesOfFields fs

end

theorem subtypesOfTypes_eq (ts : List TypeExpr) :
    subtypesOfTypes ts = ts.flatMap TypeExpr.subtypes := by
  induction ts with
  | nil => rfl
  | cons t ts ih => rw [subtypesOfTypes, ih, List.flatMap_cons]

theorem subtypesOfFields_eq (fs : List Field) :
    subtypesOfFields fs = subtypesOfTypes (fs.map Field.type) := by
  induction fs with
  | nil => rfl
  | cons f fs ih => cases f; simp [subtypesOfFields, subtypesOfTypes, ih]

theorem TypeExpr.subtypes_eq (t : TypeExpr) : t.subtypes = t :: subtypesOfTypes t.children := by
  cases t <;> simp [subtypes, children, subtypesOfTypes, subtypesOfFields_eq]

/-! ## Names -/

/-- The name of the declaration that the type stands for. -/
def TypeExpr.name? : TypeExpr → Option String
  | .named _ name => some name
  | _ => none

/-- A type refers to the names of the named types in it. -/
theorem TypeExpr.references_eq (t : TypeExpr) : t.references = t.subtypes.filterMap TypeExpr.name? := by
  induction t using TypeExpr.induction with
  | node t ih =>
    have below : (subtypesOfTypes t.children).filterMap name? = t.children.flatMap references := by
      rw [subtypesOfTypes_eq, List.filterMap_flatMap, List.flatMap_def, List.flatMap_def,
        List.map_congr_left ih]
    rw [subtypes_eq, List.filterMap_cons, below]
    cases t <;> simp [references, children, name?, namesInTypes_eq, namesInFields_eq, List.flatMap_map]

theorem TypeExpr.mem_references {t : TypeExpr} {name : String} :
    name ∈ t.references ↔ ∃ kind, .named kind name ∈ t.subtypes := by
  rw [t.references_eq, List.mem_filterMap]
  constructor
  · rintro ⟨u, mem, named⟩
    cases u with
    | named kind name' =>
      cases named
      exact ⟨kind, mem⟩
    | _ => cases named
  · rintro ⟨kind, mem⟩
    exact ⟨_, mem, rfl⟩

end DeclArchive
