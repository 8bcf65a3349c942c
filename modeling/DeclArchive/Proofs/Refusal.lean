import DeclArchive.Proofs.Declaration
import DeclArchive.Proofs.TypeExpr.Refusal

/-!
# What is refused of a declaration

With eight bytes for every number three things are refused: a category, a first initializer whose place
does not fit two bytes, and a type that holds more types or fields than one byte counts. A declaration
is refused for the first of these (`Declaration.refusal?`), or it is written
(`Declaration.foretold_write`). The offsets that the second pass over a type asks for are always there.

What is refused is also said without the order of writing: nothing is where the fields of the record
hold everything (`Declaration.Representable`), and a refusal names what is wrong
(`Declaration.Offends`).
-/

namespace DeclArchive

open Write

/-! ## Sizes -/

/-- So few texts and types that every list of them is in one block of memory. -/
structure Sized (texts : List String) (types : List TypeExpr) : Prop where
  texts : texts.length ≤ Heap.largestBlock
  types : nodesOfTypes types ≤ Heap.largestBlock

theorem nodesOfTypes_mono {ts ts' : List TypeExpr} (h : ts'.Sublist ts) :
    nodesOfTypes ts' ≤ nodesOfTypes ts := by
  induction h with
  | slnil => exact Nat.le_refl _
  | cons t _ ih => exact ih.trans (Nat.le_add_left _ _)
  | cons_cons t _ ih => exact Nat.add_le_add_left ih _

theorem sublist_flatMap_of_mem {α β : Type} {f : α → List β} {xs : List α} {x : α} (h : x ∈ xs) :
    (f x).Sublist (xs.flatMap f) :=
  List.sublist_flatten_of_mem (List.mem_map_of_mem h)

namespace Sized

variable {texts texts' : List String} {types types' : List TypeExpr}

theorem mono (h : Sized texts types) (sub : texts'.Sublist texts) (sub' : types'.Sublist types) :
    Sized texts' types' :=
  ⟨sub.length_le.trans h.texts, (nodesOfTypes_mono sub').trans h.types⟩

theorem length_types (h : Sized texts types) : types.length ≤ Heap.largestBlock :=
  (length_le_nodesOfTypes types).trans h.types

/-- Every part of the types is in one block. -/
theorem parts (h : Sized texts types) (all : (types.flatMap TypeExpr.texts).Sublist texts) :
    ∀ p ∈ partsOfTypes types, p.texts.length ≤ Heap.largestBlock := by
  intro p hp
  rw [partsOfTypes_eq] at hp
  obtain ⟨t, ht, hp⟩ := List.mem_flatMap.1 hp
  have sub : p.texts.Sublist t.texts := sublist_flatMap_of_mem hp
  exact ((sub.trans (sublist_flatMap_of_mem ht)).trans all).length_le.trans h.texts

end Sized

/-! ## Types -/

theorem TypeExpr.foretold_write {t : TypeExpr}
    (few : ∀ p ∈ t.parts, p.texts.length ≤ Heap.largestBlock) (w : Writer) :
    Foretold id (t.subtypes.findSome? TypeExpr.tooMany?) Inside t.write w :=
  fun wide => (reaches_write fun p hp => (few p hp).trans wide.block_le_count).foretold wide

theorem foretold_writeSignature {ts : List TypeExpr} (sized : Sized (ts.flatMap TypeExpr.texts) ts)
    (w : Writer) : Foretold id (refusalOfTypes? ts) Inside (writeSignature ts) w := by
  intro wide
  have few := fun p hp => (sized.parts (.refl _) p hp).trans wide.block_le_count
  exact (reaches_writeSignature few (sized.length_types.trans wide.block_le_count)).foretold wide

theorem refusalOfTypes?_append (ts ts' : List TypeExpr) :
    refusalOfTypes? (ts ++ ts') = (refusalOfTypes? ts).or (refusalOfTypes? ts') := by
  rw [refusalOfTypes?, subtypesOfTypes_eq, List.flatMap_append, List.findSome?_append,
    ← subtypesOfTypes_eq, ← subtypesOfTypes_eq]
  rfl

theorem refusalOfTypes?_flatMap {α : Type} (types : α → List TypeExpr) (xs : List α) :
    refusalOfTypes? (xs.flatMap types) = xs.findSome? fun x => refusalOfTypes? (types x) := by
  induction xs with
  | nil => rfl
  | cons x xs ih => rw [List.flatMap_cons, refusalOfTypes?_append, findSome?_cons_eq_or, ih]

/-! ## Records -/

theorem Info.foretold_writeNames (i : Info) (w : Writer) :
    Foretold id none Inside i.writeNames w := by
  unfold Info.writeNames
  split_ifs
  · refine (foretold_text _ w).none_bind fun shown w₁ _ here => ?_
    refine (foretold_text _ w₁).none_bind fun name w₂ kept there => ?_
    refine (foretold_pointer (here.later kept)).none_bind fun pair w₃ kept' pairs => ?_
    refine (foretold_pointer (there.later kept')).none_bind fun _ _ kept _ => ?_
    exact foretold_pure (pairs.later kept)
  · exact foretold_text _ w

theorem Info.foretold_writeBase {i : Info} {names : Offset} {flags : UInt8} {module : UInt16}
    {w : Writer} (h : Inside names w) :
    Foretold id none Inside (i.writeBase names flags module) w := by
  refine (foretold_pointer h).none_bind fun start w₁ _ starts => ?_
  refine (foretold_bytes _ w₁).none_bind fun _ w₂ kept₁ _ => ?_
  refine (foretold_bytes _ w₂).none_bind fun _ w₃ kept₂ _ => ?_
  refine (foretold_bytes _ w₃).none_bind fun _ w₄ kept₃ _ => ?_
  exact foretold_pure (((starts.later kept₁).later kept₂).later kept₃)

theorem foretold_writeTextOrNull (s : String) (w : Writer) :
    Foretold id none Inside (writeTextOrNull s) w := by
  unfold writeTextOrNull
  split_ifs
  · exact foretold_pure (Nat.zero_le _)
  · exact foretold_text s w

/-- Two pointers at the end of a record. -/
theorem foretold_twoPointers {first second record : Offset} {w : Writer} (h : Inside first w)
    (h' : Inside second w) (here : Inside record w) :
    Foretold id none Inside (do
      let _ ← pointer first
      let _ ← pointer second
      return record) w := by
  refine (foretold_pointer h).none_bind fun _ w₁ kept _ => ?_
  refine (foretold_pointer (h'.later kept)).none_bind fun _ w₂ kept' _ => ?_
  exact foretold_pure ((here.later kept).later kept')

variable {module : UInt16}

theorem Method.foretold_write {m : Method} (sized : Sized m.texts m.signature) (w : Writer) :
    Foretold id (refusalOfTypes? m.signature) Inside (m.write module) w := by
  have signature : Sized (m.signature.flatMap TypeExpr.texts) m.signature :=
    sized.mono ((List.sublist_cons_self _ _).trans (List.sublist_append_right _ _)) (.refl _)
  refine (m.info.foretold_writeNames w).none_bind fun names w₁ _ h₁ => ?_
  refine (foretold_writeSignature signature w₁).bind_none fun types w₂ kept₂ h₂ => ?_
  refine (foretold_writeTextOrNull _ w₂).none_bind fun encoding w₃ kept₃ h₃ => ?_
  refine (Info.foretold_writeBase ((h₁.later kept₂).later kept₃)).none_bind
    fun record w₄ kept₄ h₄ => ?_
  exact foretold_twoPointers ((h₂.later kept₃).later kept₄) (h₃.later kept₄) h₄

theorem foretold_writeAccessor {m? : Option Method}
    (sized : ∀ m ∈ m?, Sized m.texts m.signature) (w : Writer) :
    Foretold id (refusalOfTypes? (accessorTypes m?)) Inside (writeAccessor module m?) w := by
  cases m? with
  | none => exact foretold_pure (Nat.zero_le _)
  | some m => exact Method.foretold_write (sized m rfl) w

theorem Property.foretold_write {p : Property}
    (sized : Sized p.texts (accessorTypes p.getter? ++ accessorTypes p.setter?)) (w : Writer) :
    Foretold id (refusalOfTypes? (accessorTypes p.getter? ++ accessorTypes p.setter?)) Inside
      (p.write module) w := by
  have accessor (m : Method) (h : m ∈ p.getter?.toList ++ p.setter?.toList) : m.texts.Sublist p.texts :=
    (sublist_flatMap_of_mem h).trans (List.sublist_append_right _ _)
  have getter (m : Method) (h : m ∈ p.getter?) : Sized m.texts m.signature := by
    refine sized.mono (accessor m (List.mem_append_left _ (Option.mem_toList.2 h))) ?_
    rw [Option.mem_def.1 h]
    exact List.sublist_append_left _ _
  have setter (m : Method) (h : m ∈ p.setter?) : Sized m.texts m.signature := by
    refine sized.mono (accessor m (List.mem_append_right _ (Option.mem_toList.2 h))) ?_
    rw [Option.mem_def.1 h]
    exact List.sublist_append_right _ _
  rw [refusalOfTypes?_append]
  refine (p.info.foretold_writeNames w).none_bind fun names w₁ _ h₁ => ?_
  refine (foretold_writeAccessor getter w₁).bind fun get w₂ kept₂ h₂ => ?_
  refine (foretold_writeAccessor setter w₂).bind_none fun set w₃ kept₃ h₃ => ?_
  refine (Info.foretold_writeBase ((h₁.later kept₂).later kept₃)).none_bind
    fun record w₄ kept₄ h₄ => ?_
  exact foretold_twoPointers ((h₂.later kept₃).later kept₄) (h₃.later kept₄) h₄

/-! ## Members -/

/-- The members in the order in which they are written. -/
def Members.sorted (m : Members) : Members where
  instanceMethods := sortByPublicName Method.info m.instanceMethods
  staticMethods := sortByPublicName Method.info m.staticMethods
  properties := sortByPublicName Property.info m.properties
  protocols := sortNames m.protocols

/-- The refusal of a first initializer whose place does not fit two bytes. -/
def Members.misplaced? (m : Members) : Option Error :=
  (firstInitializer? m.sorted.instanceMethods).bind fun i =>
    if i ≤ 32767 then none else some (.countOverflow i 2)

/-- The refusal of members: the first initializer is looked at before the types. -/
def Members.refusal? (m : Members) : Option Error :=
  m.misplaced?.or (refusalOfTypes? m.sorted.types)

theorem Members.initializerIndex_eq (m : Members) :
    (∃ index, initializerIndex m.sorted.instanceMethods = .ok index ∧ m.misplaced? = none) ∨
      ∃ e, initializerIndex m.sorted.instanceMethods = .error e ∧ m.misplaced? = some e := by
  unfold initializerIndex Members.misplaced?
  cases firstInitializer? m.sorted.instanceMethods with
  | none => exact .inl ⟨_, rfl, rfl⟩
  | some i =>
    dsimp only [Option.bind_some]
    split_ifs
    · exact .inl ⟨_, rfl, rfl⟩
    · exact .inr ⟨_, rfl, rfl⟩

theorem Members.foretold_noteInitializers (m : Members) (w : Writer) :
    Foretold id m.misplaced? (fun _ _ => True) (noteInitializers m.sorted.instanceMethods) w := by
  unfold noteInitializers
  obtain ⟨index, found, allowed⟩ | ⟨e, found, refused⟩ := m.initializerIndex_eq
  · rw [found, allowed]
    cases initializerWarning? m.sorted.instanceMethods with
    | none => exact foretold_pure trivial
    | some warning =>
      exact (foretold_note warning w).none_bind fun _ _ _ _ => foretold_pure trivial
  · rw [found, refused]
    cases initializerWarning? m.sorted.instanceMethods with
    | none => exact foretold_throw _
    | some warning => exact (foretold_note warning w).none_bind fun _ _ _ _ => foretold_throw _

theorem length_le_flatMap {α β : Type} {f : α → List β} {xs : List α} (h : ∀ x, 0 < (f x).length) :
    xs.length ≤ (xs.flatMap f).length := by
  induction xs with
  | nil => exact Nat.le_refl _
  | cons x xs ih =>
    have := h x
    rw [List.flatMap_cons, List.length_append, List.length_cons]
    omega

/-- Members that are sized are so one by one, and in number. -/
structure Members.Sized (m : Members) : Prop where
  instanceMethods : ∀ x ∈ m.instanceMethods, DeclArchive.Sized x.texts x.signature
  staticMethods : ∀ x ∈ m.staticMethods, DeclArchive.Sized x.texts x.signature
  properties : ∀ p ∈ m.properties,
    DeclArchive.Sized p.texts (accessorTypes p.getter? ++ accessorTypes p.setter?)
  number : m.instanceMethods.length + m.staticMethods.length + m.properties.length +
    m.protocols.length ≤ Heap.largestBlock

theorem Sized.members {m : Members} (sized : Sized m.texts m.types) : m.Sized := by
  have methods : ((m.instanceMethods ++ m.staticMethods).flatMap Method.texts).Sublist m.texts :=
    (List.sublist_append_left _ _).trans (List.sublist_append_left _ _)
  have properties : (m.properties.flatMap Property.texts).Sublist m.texts :=
    (List.sublist_append_right _ _).trans (List.sublist_append_left _ _)
  refine ⟨fun x hx => sized.mono ?_ ?_, fun x hx => sized.mono ?_ ?_, fun p hp => sized.mono ?_ ?_, ?_⟩
  · exact (sublist_flatMap_of_mem (List.mem_append_left _ hx)).trans methods
  · exact ((sublist_flatMap_of_mem hx).trans (List.sublist_append_left _ _)).trans
      (List.sublist_append_left _ _)
  · exact (sublist_flatMap_of_mem (List.mem_append_right _ hx)).trans methods
  · exact ((sublist_flatMap_of_mem hx).trans (List.sublist_append_right _ _)).trans
      (List.sublist_append_left _ _)
  · exact (sublist_flatMap_of_mem hp).trans properties
  · have types := List.sublist_append_right (m.instanceMethods.flatMap Method.signature ++
      m.staticMethods.flatMap Method.signature) (m.properties.flatMap fun p =>
        accessorTypes p.getter? ++ accessorTypes p.setter?)
    exact (sublist_flatMap_of_mem hp).trans types
  · -- each of them has at least one text
    have methods : (m.instanceMethods ++ m.staticMethods).length ≤
        ((m.instanceMethods ++ m.staticMethods).flatMap Method.texts).length :=
      length_le_flatMap fun _ => Nat.succ_pos _
    have properties : m.properties.length ≤ (m.properties.flatMap Property.texts).length :=
      length_le_flatMap fun _ => Nat.succ_pos _
    refine le_trans ?_ sized.texts
    rw [List.length_append] at methods
    rw [Members.texts, List.length_append, List.length_append]
    omega

/-- Where the members are: all of them in the heap. -/
structure WrittenMembers.AllInside (m : WrittenMembers) (w : Writer) : Prop where
  instanceMethods : Inside m.instanceMethods w
  staticMethods : Inside m.staticMethods w
  properties : Inside m.properties w
  protocols : Inside m.protocols w

theorem length_sortByPublicName {α : Type} (info : α → Info) (xs : List α) :
    (sortByPublicName info xs).length = xs.length := List.length_mergeSort xs

theorem Members.Sized.sorted {m : Members} (sized : m.Sized) : m.sorted.Sized where
  instanceMethods x hx := sized.instanceMethods x (mem_sortByPublicName.1 hx)
  staticMethods x hx := sized.staticMethods x (mem_sortByPublicName.1 hx)
  properties p hp := sized.properties p (mem_sortByPublicName.1 hp)
  number := by
    have number := sized.number
    have protocols := (sortNames_perm m.protocols).length_eq
    rwa [Members.sorted, length_sortByPublicName, length_sortByPublicName, length_sortByPublicName,
      protocols]

theorem foretold_writeMethods {methods : List Method}
    (sized : ∀ x ∈ methods, Sized x.texts x.signature) (w : Writer) :
    Foretold id (refusalOfTypes? (methods.flatMap Method.signature)) (AllInside methods.length)
      (methods.mapM (Method.write module)) w := by
  rw [refusalOfTypes?_flatMap]
  exact foretold_mapM fun x hx w' _ => Method.foretold_write (sized x hx) w'

theorem foretold_writeProperties {properties : List Property}
    (sized : ∀ p ∈ properties,
      Sized p.texts (accessorTypes p.getter? ++ accessorTypes p.setter?)) (w : Writer) :
    Foretold id (refusalOfTypes? (properties.flatMap fun p =>
      accessorTypes p.getter? ++ accessorTypes p.setter?)) (AllInside properties.length)
      (properties.mapM (Property.write module)) w := by
  rw [refusalOfTypes?_flatMap]
  exact foretold_mapM fun p hp w' _ => Property.foretold_write (sized p hp) w'

/-- The arrays lead to members that are in the heap. -/
theorem foretold_memberArrays {instances statics properties protocols : List Offset}
    {firstInitializer : Int16} {i s p n : Nat} {w : Writer} (h₁ : AllInside i instances w)
    (h₂ : AllInside s statics w) (h₃ : AllInside p properties w) (h₄ : AllInside n protocols w)
    (number : i + s + p + n ≤ Heap.largestBlock) :
    Foretold id none WrittenMembers.AllInside (do
      return {
        instanceMethods := ← arrayOrNull instances
        staticMethods := ← arrayOrNull statics
        properties := ← arrayOrNull properties
        protocols := ← arrayOrNull protocols
        firstInitializer }) w := by
  refine (foretold_arrayOrNull h₁ (.inl (by omega))).none_bind fun a w₁ kept₁ here₁ => ?_
  refine (foretold_arrayOrNull (h₂.later kept₁) (.inl (by omega))).none_bind
    fun b w₂ kept₂ here₂ => ?_
  have kept := trans_of Writer.Kept kept₁ kept₂
  refine (foretold_arrayOrNull (h₃.later kept) (.inl (by omega))).none_bind
    fun c w₃ kept₃ here₃ => ?_
  refine (foretold_arrayOrNull ((h₄.later kept).later kept₃) (.inl (by omega))).none_bind
    fun d w₄ kept₄ here₄ => ?_
  have kept := trans_of Writer.Kept kept₃ kept₄
  exact foretold_pure ⟨(here₁.later kept₂).later kept, here₂.later kept, here₃.later kept₄, here₄⟩

theorem Members.foretold_write {m : Members} (sized : m.Sized) (w : Writer) :
    Foretold id m.refusal? WrittenMembers.AllInside (m.write module) w := by
  have sized := sized.sorted
  rw [Members.refusal?, Members.types, refusalOfTypes?_append, refusalOfTypes?_append,
    Option.or_assoc]
  refine (m.foretold_noteInitializers w).bind fun index w₁ _ _ => ?_
  refine (foretold_writeMethods sized.instanceMethods w₁).bind fun is w₂ _ h₁ => ?_
  refine (foretold_writeMethods sized.staticMethods w₂).bind fun ss w₃ kept₃ h₂ => ?_
  refine (foretold_writeProperties sized.properties w₃).bind_none fun ps w₄ kept₄ h₃ => ?_
  refine (foretold_texts _ w₄).none_bind fun ns w₅ kept₅ h₄ => ?_
  have kept := trans_of Writer.Kept kept₄ kept₅
  exact foretold_memberArrays ((h₁.later kept₃).later kept) (h₂.later kept) (h₃.later kept₅) h₄
    sized.number

theorem WrittenMembers.foretold_writePointers {m : WrittenMembers} {w : Writer} (h : m.AllInside w) :
    Foretold id none (fun _ _ => True) m.writePointers w := by
  refine (foretold_pointer h.instanceMethods).none_bind fun _ w₁ kept₁ _ => ?_
  refine (foretold_pointer (h.staticMethods.later kept₁)).none_bind fun _ w₂ kept₂ _ => ?_
  have kept := trans_of Writer.Kept kept₁ kept₂
  refine (foretold_pointer (h.properties.later kept)).none_bind fun _ w₃ kept₃ _ => ?_
  refine (foretold_pointer ((h.protocols.later kept).later kept₃)).none_bind fun _ w₄ _ _ => ?_
  exact (foretold_bytes _ w₄).none_bind fun _ _ _ _ => foretold_pure trivial

theorem WrittenMembers.AllInside.later {m : WrittenMembers} {w w' : Writer} (h : m.AllInside w)
    (kept : w.Kept w') : m.AllInside w' :=
  ⟨h.instanceMethods.later kept, h.staticMethods.later kept, h.properties.later kept,
    h.protocols.later kept⟩

/-! ## Declarations -/

/-- The refusal of a declaration. -/
def Declaration.refusal? (d : Declaration) : Option Error :=
  match d.body with
  | .function signature _ => refusalOfTypes? signature
  | .record _ fields => refusalOfTypes? (fields.map Field.type)
  | .code _ => none
  | .global type => refusalOfTypes? [type]
  | .interface _ members | .protocol members => members.refusal?
  | .category extended _ => some (.broken (.unmergedCategory d.info.name extended))

/-- Every list of texts or types in the declaration is in one block of memory. -/
def Declaration.Sized (d : Declaration) : Prop := DeclArchive.Sized d.texts d.body.types

theorem foretold_writeFields {fields : List Field}
    (sized : Sized (fields.flatMap fun f => f.name :: f.type.texts) (fields.map Field.type))
    (w : Writer) : Foretold id (refusalOfTypes? (fields.map Field.type))
      (fun offsets w => Inside offsets.1 w ∧ Inside offsets.2 w) (writeFields fields) w := by
  unfold writeFields
  split_ifs with none
  · rw [List.isEmpty_iff.1 none]
    exact foretold_pure ⟨Nat.zero_le _, Nat.zero_le _⟩
  · have types : ((fields.map Field.type).flatMap TypeExpr.texts).Sublist
        (fields.flatMap fun f => f.name :: f.type.texts) := by
      clear sized none
      induction fields with
      | nil => exact .refl _
      | cons f fields ih => exact ((List.Sublist.refl _).cons _).append ih
    refine (foretold_texts _ w).none_bind fun names w₁ _ here => ?_
    have few : (fields.map Field.name).length ≤ Heap.largestBlock := by
      rw [List.length_map, ← List.length_map (f := Field.type)]
      exact sized.length_types
    refine (foretold_array here (.inl few)).none_bind fun array w₂ _ h₂ => ?_
    refine (foretold_writeSignature (sized.mono types (.refl _)) w₂).bind_none fun types w₃ kept h₃ => ?_
    exact foretold_pure ⟨h₂.later kept, h₃⟩

/-- A declaration is written, or refused as is foretold. -/
theorem Declaration.foretold_write {d : Declaration} (sized : d.Sized) (w : Writer) :
    Foretold id d.refusal? Inside (d.write module) w := by
  rcases d with ⟨info, body⟩
  have body_texts : body.texts.Sublist (Declaration.texts ⟨info, body⟩) :=
    List.sublist_append_right _ _
  cases body with
  | function signature flags =>
    have sized := sized.mono body_texts (.refl _)
    refine (info.foretold_writeNames w).none_bind fun names w₁ _ h₁ => ?_
    refine (foretold_writeSignature sized w₁).bind_none fun types w₂ kept₂ h₂ => ?_
    refine (Info.foretold_writeBase (h₁.later kept₂)).none_bind fun record w₃ kept₃ h₃ => ?_
    refine (foretold_pointer (h₂.later kept₃)).none_bind fun _ w₄ kept₄ _ => ?_
    exact foretold_pure (h₃.later kept₄)
  | global type =>
    have sized : DeclArchive.Sized type.texts [type] := sized.mono body_texts (.refl _)
    have few : ∀ p ∈ type.parts, p.texts.length ≤ Heap.largestBlock := fun p hp =>
      (sublist_flatMap_of_mem hp).length_le.trans sized.texts
    have same : refusalOfTypes? [type] = type.subtypes.findSome? TypeExpr.tooMany? := by
      rw [refusalOfTypes?, subtypesOfTypes, subtypesOfTypes, List.append_nil]
    show Foretold id (refusalOfTypes? [type]) _ _ _
    rw [same]
    refine (info.foretold_writeNames w).none_bind fun names w₁ _ h₁ => ?_
    refine (TypeExpr.foretold_write few w₁).bind_none fun run w₂ kept₂ h₂ => ?_
    refine (Info.foretold_writeBase (h₁.later kept₂)).none_bind fun record w₃ kept₃ h₃ => ?_
    refine (foretold_pointer (h₂.later kept₃)).none_bind fun _ w₄ kept₄ _ => ?_
    exact foretold_pure (h₃.later kept₄)
  | code text =>
    refine (info.foretold_writeNames w).none_bind fun names w₁ _ h₁ => ?_
    refine (foretold_text text w₁).none_bind fun code w₂ kept₂ h₂ => ?_
    refine (Info.foretold_writeBase (h₁.later kept₂)).none_bind fun record w₃ kept₃ h₃ => ?_
    refine (foretold_pointer (h₂.later kept₃)).none_bind fun _ w₄ kept₄ _ => ?_
    exact foretold_pure (h₃.later kept₄)
  | record kind fields =>
    have sized := sized.mono body_texts (.refl _)
    refine (info.foretold_writeNames w).none_bind fun names w₁ _ h₁ => ?_
    refine (foretold_writeFields sized w₁).bind_none fun offsets w₂ kept₂ h₂ => ?_
    refine (Info.foretold_writeBase (h₁.later kept₂)).none_bind fun record w₃ kept₃ h₃ => ?_
    exact foretold_twoPointers (h₂.1.later kept₃) (h₂.2.later kept₃) h₃
  | protocol members =>
    have sized : DeclArchive.Sized members.texts members.types := sized.mono body_texts (.refl _)
    refine (info.foretold_writeNames w).none_bind fun names w₁ _ h₁ => ?_
    refine (Members.foretold_write sized.members w₁).bind_none fun offsets w₂ kept₂ h₂ => ?_
    refine (Info.foretold_writeBase (h₁.later kept₂)).none_bind fun record w₃ kept₃ h₃ => ?_
    refine (WrittenMembers.foretold_writePointers (h₂.later kept₃)).none_bind fun _ w₄ kept₄ _ => ?_
    exact foretold_pure (h₃.later kept₄)
  | interface base? members =>
    have sized : DeclArchive.Sized members.texts members.types :=
      sized.mono ((List.sublist_append_right _ _).trans body_texts) (.refl _)
    refine (info.foretold_writeNames w).none_bind fun names w₁ _ h₁ => ?_
    refine (Members.foretold_write sized.members w₁).bind_none fun offsets w₂ kept₂ h₂ => ?_
    refine (foretold_writeTextOrNull _ w₂).none_bind fun baseName w₃ kept₃ h₃ => ?_
    refine (Info.foretold_writeBase ((h₁.later kept₂).later kept₃)).none_bind
      fun record w₄ kept₄ h₄ => ?_
    refine (WrittenMembers.foretold_writePointers ((h₂.later kept₃).later kept₄)).none_bind
      fun _ w₅ kept₅ _ => ?_
    refine (foretold_pointer ((h₃.later kept₄).later kept₅)).none_bind fun _ w₆ kept₆ _ => ?_
    exact foretold_pure ((h₄.later kept₅).later kept₆)
  | category extended members => exact foretold_throw _

/-! ## What is not refused -/

/-- The members of a class or protocol. -/
def Body.members? : Body → Option Members
  | .interface _ members | .protocol members => some members
  | _ => none

/-- What the fields of the record of a declaration can hold. -/
structure Declaration.Representable (d : Declaration) : Prop where
  merged : d.isCategory = false
  types : ∀ t ∈ d.body.types, ∀ u ∈ t.subtypes, ∀ n ∈ u.elements?, n ≤ 255
  initializers : ∀ m ∈ d.body.members?,
    ∀ i ∈ firstInitializer? (sortByPublicName Method.info m.instanceMethods), i ≤ 32767

theorem TypeExpr.tooMany?_eq_none {t : TypeExpr} :
    t.tooMany? = none ↔ ∀ n ∈ t.elements?, n ≤ 255 := by
  unfold TypeExpr.tooMany? DeclArchive.tooMany?
  cases t.elements? with
  | none => exact ⟨fun _ => nofun, fun _ => rfl⟩
  | some n =>
    rw [Option.bind_some]
    split_ifs with many
    · exact ⟨nofun, fun few => absurd (few n rfl) (Nat.not_le.2 many)⟩
    · exact ⟨fun _ _ same => Option.some.inj same ▸ Nat.not_lt.1 many, fun _ => rfl⟩

theorem refusalOfTypes?_eq_none {ts : List TypeExpr} :
    refusalOfTypes? ts = none ↔ ∀ t ∈ ts, ∀ u ∈ t.subtypes, ∀ n ∈ u.elements?, n ≤ 255 := by
  simp only [refusalOfTypes?, subtypesOfTypes_eq, List.findSome?_eq_none_iff, List.mem_flatMap,
    TypeExpr.tooMany?_eq_none]
  exact ⟨fun h t ht u hu => h u ⟨t, ht, hu⟩, fun h u ⟨t, ht, hu⟩ => h t ht u hu⟩

theorem Members.mem_types_sorted {m : Members} {t : TypeExpr} :
    t ∈ m.sorted.types ↔ t ∈ m.types := by
  simp only [Members.types, Members.sorted, List.mem_append, List.mem_flatMap,
    mem_sortByPublicName]

theorem Members.misplaced?_eq_none {m : Members} : m.misplaced? = none ↔
    ∀ i ∈ firstInitializer? (sortByPublicName Method.info m.instanceMethods), i ≤ 32767 := by
  unfold Members.misplaced? Members.sorted
  dsimp only
  cases firstInitializer? (sortByPublicName Method.info m.instanceMethods) with
  | none => exact ⟨fun _ => nofun, fun _ => rfl⟩
  | some i =>
    rw [Option.bind_some]
    split_ifs with small
    · exact ⟨fun _ _ same => Option.some.inj same ▸ small, fun _ => rfl⟩
    · exact ⟨nofun, fun all => absurd (all i rfl) small⟩

theorem Declaration.refusal?_category {d : Declaration} (category : d.isCategory = true) :
    ∃ extended members, d.body = .category extended members ∧
      d.refusal? = some (.broken (.unmergedCategory d.info.name extended)) := by
  rcases d with ⟨info, body⟩
  cases body with
  | category extended members => exact ⟨extended, members, rfl, rfl⟩
  | record kind => cases kind <;> cases category
  | _ => cases category

/-- Of a declaration that is no category the initializers are looked at before the types, and these in
the order in which they are written. -/
theorem Declaration.refusal?_merged {d : Declaration} (merged : d.isCategory = false) :
    ∃ types, (∀ t, t ∈ types ↔ t ∈ d.body.types) ∧
      d.refusal? = (d.body.members?.bind Members.misplaced?).or (refusalOfTypes? types) := by
  rcases d with ⟨info, body⟩
  cases body with
  | function | record | code | global => exact ⟨_, fun _ => .rfl, rfl⟩
  | interface _ members | protocol members =>
    exact ⟨members.sorted.types, fun _ => Members.mem_types_sorted, rfl⟩
  | category => cases merged

/-- A declaration is refused if and only if a field of its record cannot hold what it has to. -/
theorem Declaration.refusal?_eq_none {d : Declaration} : d.refusal? = none ↔ d.Representable := by
  cases merged : d.isCategory with
  | true =>
    obtain ⟨_, _, -, refusal⟩ := Declaration.refusal?_category merged
    rw [refusal]
    exact ⟨nofun, fun h => nomatch merged.symm.trans h.merged⟩
  | false =>
    obtain ⟨types, same, refusal⟩ := Declaration.refusal?_merged merged
    rw [refusal, Option.or_eq_none_iff, Option.bind_eq_none_iff, refusalOfTypes?_eq_none]
    simp only [same, Members.misplaced?_eq_none]
    exact ⟨fun h => ⟨merged, h.2, h.1⟩, fun h => ⟨h.initializers, h.types⟩⟩

/-! ## What is refused -/

/-- What is wrong with a declaration, and the error that reports it. The initializers of a class are
reported before its types. -/
inductive Declaration.Offends (d : Declaration) : Error → Prop
  | category {extended : String} {members : Members} (body : d.body = .category extended members) :
    Offends d (.broken (.unmergedCategory d.info.name extended))
  | initializer {m : Members} {i : Nat} (members : m ∈ d.body.members?)
      (first : i ∈ firstInitializer? (sortByPublicName Method.info m.instanceMethods))
      (far : 32767 < i) :
    Offends d (.countOverflow i 2)
  | elements {t u : TypeExpr} {n : Nat} (merged : d.isCategory = false)
      (initializers : ∀ m ∈ d.body.members?,
        ∀ i ∈ firstInitializer? (sortByPublicName Method.info m.instanceMethods), i ≤ 32767)
      (type : t ∈ d.body.types) (subtype : u ∈ t.subtypes) (count : n ∈ u.elements?) (many : 255 < n) :
    Offends d (.countOverflow n 1)

theorem TypeExpr.tooMany?_eq_some {t : TypeExpr} {e : Error} (h : t.tooMany? = some e) :
    ∃ n ∈ t.elements?, 255 < n ∧ e = .countOverflow n 1 := by
  obtain ⟨n, count, h⟩ := Option.bind_eq_some_iff.1 h
  unfold DeclArchive.tooMany? at h
  split_ifs at h with many
  exact ⟨n, count, many, (Option.some.inj h).symm⟩

theorem refusalOfTypes?_eq_some {ts : List TypeExpr} {e : Error} (h : refusalOfTypes? ts = some e) :
    ∃ t ∈ ts, ∃ u ∈ t.subtypes, ∃ n ∈ u.elements?, 255 < n ∧ e = .countOverflow n 1 := by
  rw [refusalOfTypes?, subtypesOfTypes_eq] at h
  obtain ⟨u, mem, h⟩ := List.exists_of_findSome?_eq_some h
  obtain ⟨t, ht, hu⟩ := List.mem_flatMap.1 mem
  exact ⟨t, ht, u, hu, TypeExpr.tooMany?_eq_some h⟩

theorem Members.misplaced?_eq_some {m : Members} {e : Error} (h : m.misplaced? = some e) :
    ∃ i ∈ firstInitializer? (sortByPublicName Method.info m.instanceMethods), 32767 < i ∧
      e = .countOverflow i 2 := by
  obtain ⟨i, first, h⟩ := Option.bind_eq_some_iff.1 h
  split_ifs at h with near
  exact ⟨i, first, Nat.not_le.1 near, (Option.some.inj h).symm⟩

/-- A declaration is refused for what is wrong with it. -/
theorem Declaration.offends_of_refusal {d : Declaration} {e : Error} (h : d.refusal? = some e) :
    d.Offends e := by
  cases merged : d.isCategory with
  | true =>
    obtain ⟨_, _, body, refusal⟩ := Declaration.refusal?_category merged
    obtain rfl := Option.some.inj (refusal.symm.trans h)
    exact .category body
  | false =>
    obtain ⟨types, same, refusal⟩ := Declaration.refusal?_merged merged
    obtain misplaced | ⟨near, h⟩ := Option.or_eq_some_iff.1 (refusal.symm.trans h)
    · obtain ⟨m, members, h⟩ := Option.bind_eq_some_iff.1 misplaced
      obtain ⟨i, first, far, rfl⟩ := Members.misplaced?_eq_some h
      exact .initializer members first far
    · obtain ⟨t, ht, u, hu, n, hn, many, rfl⟩ := refusalOfTypes?_eq_some h
      have initializers m (hm : m ∈ d.body.members?) :=
        Members.misplaced?_eq_none.1 (Option.bind_eq_none_iff.1 near m hm)
      exact .elements merged initializers ((same t).1 ht) hu hn many

end DeclArchive
