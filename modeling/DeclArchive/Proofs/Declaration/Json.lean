import DeclArchive.Declaration.Forest.Json
import DeclArchive.Proofs.Json

/-!
# Forests lose nothing as JSON

What is written for a type, a declaration or a forest is read as it was. A type is read to a fixed depth,
and the depth of what is written is enough for it (`TypeExpr.ofJsonWithin_toJson`); every other part is an
object whose keys differ, so each is found where it was put. What is left out on the way in is written on
the way out, save a public name that is not given, so a value with gaps is filled once and then stays
(`forest_lossless`).
-/

namespace DeclArchive

open Json

attribute [local simp] Except.ok_bind asObject asText asBool

/-! ## Types -/

theorem Tag.ofText?_text (t : Tag) : ofText? t.text = some t := by
  cases t with
  | scalar k => cases k <;> decide +kernel
  | object k => cases k <;> decide +kernel
  | indirect k => cases k <;> decide +kernel
  | sized k => cases k <;> decide +kernel
  | callable k => cases k <;> decide +kernel
  | named k => cases k <;> decide +kernel
  | anonymous k => cases k <;> decide +kernel

theorem IndirectKind.kind_ne_key (k : IndirectKind) : "kind" ≠ k.key := by
  cases k <;> decide +kernel

/-- A field as a value. -/
def Field.toJson (f : Field) : Json :=
  .object [("name", .text f.name), ("type", f.type.toJson)]

theorem typesToJson_eq (ts : List TypeExpr) : typesToJson ts = ts.map TypeExpr.toJson := by
  induction ts with
  | nil => rfl
  | cons t ts ih => rw [typesToJson, ih, List.map_cons]

theorem fieldsToJson_eq (fs : List Field) : fieldsToJson fs = fs.map Field.toJson := by
  induction fs with
  | nil => rfl
  | cons f fs ih =>
    cases f
    rw [fieldsToJson, ih, List.map_cons, Field.toJson]

/-! Every part that is written can be read. -/

mutual

theorem TypeExpr.isReadable_toJson : (t : TypeExpr) → t.toJson.isReadable = true
  | .scalar _ => rfl
  | .named _ _ => rfl
  | .object _ _ => by
    simp [TypeExpr.toJson, isReadable, allMembersReadable, allReadable_map lossless_text.readable]
  | .indirect _ target => by
    simp [TypeExpr.toJson, isReadable, allMembersReadable, target.isReadable_toJson]
  | .sized _ element _ => by
    simp [TypeExpr.toJson, isReadable, allMembersReadable, element.isReadable_toJson]
  | .callable _ signature => by
    simp [TypeExpr.toJson, isReadable, allMembersReadable, allReadable_typesToJson signature]
  | .anonymous _ fields => by
    simp [TypeExpr.toJson, isReadable, allMembersReadable, allReadable_fieldsToJson fields]

theorem allReadable_typesToJson : (ts : List TypeExpr) → allReadable (typesToJson ts) = true
  | [] => rfl
  | t :: ts => by
    simp [typesToJson, allReadable, t.isReadable_toJson, allReadable_typesToJson ts]

theorem allReadable_fieldsToJson : (fs : List Field) → allReadable (fieldsToJson fs) = true
  | [] => rfl
  | ⟨_, t⟩ :: fs => by
    simp [fieldsToJson, allReadable, isReadable, allMembersReadable, t.isReadable_toJson,
      allReadable_fieldsToJson fs]

end

section

attribute [local simp] TypeExpr.ofJsonWithin TypeExpr.toJson TypeExpr.tag Tag.ofText?_text depth
  depthOfMembers

mutual

/-- A reader that may go as deep as the value gets the type back. -/
theorem TypeExpr.ofJsonWithin_toJson : (t : TypeExpr) → ∀ {levels : Nat}, t.toJson.depth ≤ levels →
    TypeExpr.ofJsonWithin levels t.toJson = .ok t
  | t, 0, deep => absurd t.toJson.depth_pos (Nat.not_lt.2 deep)
  | .scalar _, levels + 1, _ => by
    simp
    rfl
  | .named _ _, levels + 1, _ => by
    simp
  | .object _ _, levels + 1, _ => by
    simp [lossless_text.list.read_write]
  | .indirect k target, levels + 1, deep => by
    have below : target.toJson.depth ≤ levels := by
      simp at deep
      omega
    simp [k.kind_ne_key, target.ofJsonWithin_toJson below]
  | .sized _ element _, levels + 1, deep => by
    have below : element.toJson.depth ≤ levels := by
      simp at deep
      omega
    simp [element.ofJsonWithin_toJson below, lossless_uInt32.read_write]
  | .callable _ signature, levels + 1, deep => by
    have below : depthOfValues (typesToJson signature) ≤ levels := by
      simp at deep
      omega
    simp [asList, mapM_typesToJson signature below]
  | .anonymous _ fields, levels + 1, deep => by
    have below : depthOfValues (fieldsToJson fields) ≤ levels := by
      simp at deep
      omega
    simp [asList, mapM_fieldsToJson fields below]

theorem mapM_typesToJson : (ts : List TypeExpr) → ∀ {levels : Nat},
    depthOfValues (typesToJson ts) ≤ levels →
    (typesToJson ts).mapM (TypeExpr.ofJsonWithin levels) = .ok ts
  | [], _, _ => rfl
  | t :: ts, levels, deep => by
    rw [typesToJson, depthOfValues, Nat.max_le] at deep
    simp [typesToJson, t.ofJsonWithin_toJson deep.1, mapM_typesToJson ts deep.2]

theorem mapM_fieldsToJson : (fs : List Field) → ∀ {levels : Nat},
    depthOfValues (fieldsToJson fs) ≤ levels →
    (fieldsToJson fs).mapM (Field.ofJsonWith (TypeExpr.ofJsonWithin levels)) = .ok fs
  | [], _, _ => rfl
  | ⟨name, t⟩ :: fs, levels, deep => by
    rw [fieldsToJson, depthOfValues, Nat.max_le] at deep
    have below : t.toJson.depth ≤ levels := by
      have := deep.1
      simp at this
      omega
    simp [fieldsToJson, Field.ofJsonWith, t.ofJsonWithin_toJson below, mapM_fieldsToJson fs deep.2]

end

end

theorem TypeExpr.lossless : Lossless TypeExpr.toJson TypeExpr.ofJson where
  readable := TypeExpr.isReadable_toJson
  read_write t := t.ofJsonWithin_toJson (Nat.le_refl _)

theorem lossless_signature : Lossless (fun ts => .list (typesToJson ts)) signatureOfJson := by
  simp only [typesToJson_eq]
  exact TypeExpr.lossless.list

theorem Field.lossless : Lossless Field.toJson Field.ofJson where
  readable f := by
    simp [toJson, isReadable, allMembersReadable, f.type.isReadable_toJson]
  read_write f := by
    cases f
    simp [toJson, ofJson, ofJsonWith, TypeExpr.lossless.read_write]

theorem lossless_fields : Lossless (fun fs => .list (fieldsToJson fs)) (asList Field.ofJson) := by
  simp only [fieldsToJson_eq]
  exact Field.lossless.list

/-! ## Versions and names -/

section

attribute [local simp] isReadable allMembersReadable

theorem Version.lossless : Lossless Version.toJson Version.ofJson where
  readable _ := rfl
  read_write v := by
    simp [toJson, ofJson, lossless_int32.read_write]

theorem Info.lossless : Lossless Info.toJson Info.ofJson where
  readable i := by
    cases h : i.alias? <;> simp [toJson, h, Version.lossless.readable]
  read_write i := by
    obtain ⟨name, alias?, introduced, appExtension⟩ := i
    cases alias? <;> simp [toJson, ofJson, orNull, Version.lossless.read_write]

/-! ## Flags -/

theorem MethodFlags.lossless : Lossless MethodFlags.toJson MethodFlags.ofJson where
  readable _ := rfl
  read_write f := by
    simp [toJson, ofJson]

theorem FunctionFlags.lossless : Lossless FunctionFlags.toJson FunctionFlags.ofJson where
  readable _ := rfl
  read_write f := by
    simp [toJson, ofJson]

/-! ## Members -/

theorem Method.lossless : Lossless Method.toJson Method.ofJson where
  readable m := by
    simp [toJson, Info.lossless.readable, MethodFlags.lossless.readable, allReadable_typesToJson]
  read_write m := by
    simp [toJson, ofJson, Info.lossless.read_write, MethodFlags.lossless.read_write,
      lossless_signature.read_write]

/-- A thing may be null if nothing else is written so. -/
theorem Json.Lossless.orNull {α : Type} {write : α → Json} {read : As α} (h : Lossless write read)
    (solid : ∀ x, write x ≠ .null) : Lossless (optionToJson write) (orNull read) where
  readable x? := by
    cases x? with
    | none => rfl
    | some x => exact h.readable x
  read_write x? := by
    cases x? with
    | none => rfl
    | some x =>
      have back := h.read_write x
      have solid := solid x
      show Json.orNull read (write x) = .ok (some x)
      cases shape : write x <;> simp_all [Json.orNull]

theorem Property.lossless : Lossless Property.toJson Property.ofJson where
  readable p := by
    simp [toJson, Info.lossless.readable, (Method.lossless.orNull nofun).readable]
  read_write p := by
    simp [toJson, ofJson, Info.lossless.read_write, (Method.lossless.orNull nofun).read_write]

theorem Members.lossless : Lossless Members.toJson Members.ofJson where
  readable m := by
    simp [toJson, allReadable_map Method.lossless.readable,
      allReadable_map Property.lossless.readable, allReadable_map lossless_text.readable]
  read_write m := by
    simp [toJson, ofJson, Method.lossless.list.read_write, Property.lossless.list.read_write,
      lossless_text.list.read_write]

/-! ## Declarations -/

theorem Kind.ofText?_text (k : Kind) : Kind.ofText? k.text = some k := by
  cases k <;> decide +kernel

theorem Body.isReadable_toJson (b : Body) : b.toJson.isReadable = true := by
  cases b with
  | function signature flags =>
    simp [toJson, payload, allReadable_typesToJson, FunctionFlags.lossless.readable]
  | record kind fields => simp [toJson, payload, allReadable_fieldsToJson]
  | code text => rfl
  | global type => simp [toJson, payload, type.isReadable_toJson]
  | interface base? members =>
    simp [toJson, payload, (lossless_text.orNull nofun).readable, Members.lossless.readable]
  | protocol members => simp [toJson, payload, Members.lossless.readable]
  | category extended members => simp [toJson, payload, Members.lossless.readable]

theorem Body.lossless : Lossless Body.toJson Body.ofJson where
  readable := Body.isReadable_toJson
  read_write b := by
    rw [ofJson, whole, if_pos b.isReadable_toJson]
    cases b with
    | function signature flags =>
      simp [toJson, payload, kind, Kind.ofText?_text, lossless_signature.read_write,
        FunctionFlags.lossless.read_write]
    | record k fields =>
      cases k <;> simp [toJson, payload, kind, Kind.ofText?_text, lossless_fields.read_write]
    | code text => simp [toJson, payload, kind, Kind.ofText?_text]
    | global type =>
      simp [toJson, payload, kind, Kind.ofText?_text, TypeExpr.lossless.read_write]
    | interface base? members =>
      simp [toJson, payload, kind, Kind.ofText?_text, (lossless_text.orNull nofun).read_write,
        Members.lossless.read_write]
    | protocol members =>
      simp [toJson, payload, kind, Kind.ofText?_text, Members.lossless.read_write]
    | category extended members =>
      simp [toJson, payload, kind, Kind.ofText?_text, Members.lossless.read_write]

theorem Declaration.lossless : Lossless Declaration.toJson Declaration.ofJson where
  readable d := by
    simp [toJson, Info.lossless.readable, Body.lossless.readable]
  read_write d := by
    simp [toJson, ofJson, Info.lossless.read_write, Body.lossless.read_write]

/-! ## Forests -/

theorem Arena.lossless {α : Type} {write : α → Json} {read : As α} (h : Lossless write read) :
    Lossless (Arena.toJson write) (Arena.ofJson read) where
  readable a := h.list.readable a.items.toList
  read_write a := by
    simp [toJson, ofJson, h.list.read_write]

theorem Module.lossless : Lossless Module.toJson Module.ofJson where
  readable m := by
    simp [toJson, allReadable_map lossless_uInt32.readable]
  read_write m := by
    simp [toJson, ofJson, lossless_uInt32.list.read_write]

theorem Forest.lossless : Lossless Forest.toJson Forest.ofJson where
  readable f := by
    simp [toJson, (Arena.lossless Declaration.lossless).readable,
      allReadable_map Module.lossless.readable]
  read_write f := by
    simp [toJson, ofJson, (Arena.lossless Declaration.lossless).read_write,
      Module.lossless.list.read_write]

end

/-- A forest is read as it was written, and so is a forest that was read, whatever it was read from. -/
theorem forest_lossless :
    (∀ f : Forest, Forest.ofJson f.toJson = .ok f) ∧
      ∀ (j : Json) (f : Forest), Forest.ofJson j = .ok f → Forest.ofJson f.toJson = .ok f :=
  ⟨Forest.lossless.read_write, fun _ f _ => Forest.lossless.read_write f⟩

namespace Sample

/-- Most of what has a default is left out; `comment` and `color` are no keys of a forest. -/
def sparse : Json := .object [
  ("comment", .decimal "1.5"),
  ("modules", .list [.object [
    ("declarations", .list [.integer 1, .integer 7]),
    ("name", .text "UIKit.UIView")]]),
  ("declarations", .list [
    .object [
      ("decl", .object [
        ("signature", .list [.object [("kind", .text "void")]]),
        ("type", .text "function")]),
      ("info", .object [("name", .text "f"), ("introduced", .object [("major", .integer 2)])])],
    .object [
      ("decl", .object [("color", .null), ("type", .text "interface"), ("base_name", .null)]),
      ("info", .object [("name", .text "UIView"), ("public_name", .null)])]])]

/-- What `sparse` stands for; its module lists a position that is not there. -/
def filled : Forest where
  declarations := ⟨#[
    ⟨{ name := "f", introduced := ⟨2, -1, -1⟩ }, .function [.scalar .void] {}⟩,
    ⟨{ name := "UIView" }, .interface none {}⟩]⟩
  modules := #[⟨"UIKit.UIView", #[1, 7]⟩]

theorem ofJson_sparse : Forest.ofJson sparse = .ok filled := rfl

end Sample

/-- A forest that was read from a value with gaps, a null and keys without a meaning. -/
theorem forest_lossless_sparse : Forest.ofJson Sample.filled.toJson = .ok Sample.filled :=
  forest_lossless.2 Sample.sparse Sample.filled Sample.ofJson_sparse

end DeclArchive
