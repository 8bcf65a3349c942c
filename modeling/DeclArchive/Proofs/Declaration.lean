import DeclArchive.Proofs.Record
import DeclArchive.Proofs.Record.Initializers

/-!
# Declarations survive writing

Members are read in the order in which they were sorted (`Members.write_leads`,
`WrittenMembers.Leads.members_eq`). Every record of a declaration has one shape, whatever its kind: the
names, what the record points at, the base, and pointers (`Declaration.write_shape`). So its names
are always read (`Declaration.write_names`), and what is read of its body depends on nothing but what
was written and the place of its module (`Declaration.write_shows`). If its texts and types can be read
back that is what was written (`Declaration.write_reads`).
-/

namespace DeclArchive

open Write

/-! ## Growth -/

theorem grows_noteInitializers (methods : List Method) : Grows (noteInitializers methods) := by
  unfold noteInitializers
  have note : ∀ event, initializerWarning? methods = some event → event.record? = none := by
    intro event h
    unfold initializerWarning? at h
    dsimp only at h
    split_ifs at h
    obtain rfl := Option.some.inj h
    rfl
  cases warning : initializerWarning? methods with
  | none =>
    cases initializerIndex methods with
    | ok _ => exact keeps_pure _
    | error _ => exact keeps_throw _
  | some event =>
    refine (grows_note (note event warning)).bind fun _ => ?_
    cases initializerIndex methods with
    | ok _ => exact keeps_pure _
    | error _ => exact keeps_throw _

theorem Members.grows_write (module : UInt16) (m : Members) : Grows (m.write module) :=
  (grows_noteInitializers _).bind fun _ =>
    (Keeps.mapM (Method.grows_write module) _).bind fun _ =>
    (Keeps.mapM (Method.grows_write module) _).bind fun _ =>
    (Keeps.mapM (Property.grows_write module) _).bind fun _ => (grows_texts _).bind fun _ =>
    (grows_arrayOrNull _).bind fun _ => (grows_arrayOrNull _).bind fun _ =>
    (grows_arrayOrNull _).bind fun _ => (grows_arrayOrNull _).bind fun _ => keeps_pure _

theorem WrittenMembers.onlyAppends_writePointers (m : WrittenMembers) : OnlyAppends m.writePointers :=
  (onlyAppends_pointer _).bind fun _ => (onlyAppends_pointer _).bind fun _ =>
    (onlyAppends_pointer _).bind fun _ => (onlyAppends_pointer _).bind fun _ =>
    (onlyAppends_bytes _).bind fun _ => keeps_pure _

theorem WrittenMembers.grows_writePointers (m : WrittenMembers) : Grows m.writePointers :=
  m.onlyAppends_writePointers.grows

theorem grows_writeFields (fields : List Field) : Grows (writeFields fields) := by
  unfold writeFields
  split_ifs
  · exact keeps_pure _
  · exact (grows_texts _).bind fun _ => (grows_array _).bind fun _ =>
      (grows_writeSignature _).bind fun _ => keeps_pure _

theorem Declaration.grows_write (module : UInt16) (d : Declaration) : Grows (d.write module) := by
  have names := d.info.grows_writeNames
  have base (names : Offset) (flags : UInt8) := d.info.grows_writeBase names flags module
  unfold Declaration.write
  cases d.body with
  | function =>
    exact names.bind fun _ => (grows_writeSignature _).bind fun _ => (base _ _).bind fun _ =>
      (grows_pointer _).bind fun _ => keeps_pure _
  | global type =>
    exact names.bind fun _ => type.grows_write.bind fun _ => (base _ _).bind fun _ =>
      (grows_pointer _).bind fun _ => keeps_pure _
  | code =>
    exact names.bind fun _ => (grows_text _).bind fun _ => (base _ _).bind fun _ =>
      (grows_pointer _).bind fun _ => keeps_pure _
  | record =>
    exact names.bind fun _ => (grows_writeFields _).bind fun _ => (base _ _).bind fun _ =>
      (grows_pointer _).bind fun _ => (grows_pointer _).bind fun _ => keeps_pure _
  | protocol members =>
    exact names.bind fun _ => (members.grows_write _).bind fun _ => (base _ _).bind fun _ =>
      (WrittenMembers.grows_writePointers _).bind fun _ => keeps_pure _
  | interface _ members =>
    exact names.bind fun _ => (members.grows_write _).bind fun _ =>
      (grows_writeTextOrNull _).bind fun _ => (base _ _).bind fun _ =>
      (WrittenMembers.grows_writePointers _).bind fun _ => (grows_pointer _).bind fun _ => keeps_pure _
  | category => exact keeps_throw _

section

variable {im : Image} {w w' : Writer} {o : Offset} {module : UInt16}

/-! ## Members -/

/-- What is written piece by piece is read piece by piece. -/
theorem mapM_shows {α β : Type} {write : α → Write Offset} {read : Offset → Except Error β}
    {stored? : α → Option β} {xs : List α} {os : List Offset} (grows : ∀ x, Grows (write x))
    (each : ∀ x, ∀ {w w' : Writer} {o : Offset}, w.Sound → Returns (write x) w o w' →
      w'.In im → (read o).toOption = stored? x)
    (sound : w.Sound) (run : Returns (xs.mapM write) w os w') (inside : w'.In im) :
    (os.mapM read).toOption = xs.mapM stored? := by
  have all := @Returns.forall₂_of_mapM _ _ _ Writer.Grew _ Writer.Sound
    (fun x o w => w.In im → (read o).toOption = stored? x)
    write grows (fun grew => grew.sound) (fun grew h inside => h (grew.within inside)) xs
    (fun x _ _ _ _ sound run => each x sound run) _ _ _ sound run
  exact Except.toOption_mapM (all.imp fun _ _ h => h inside)

/-- What is read of members. -/
def Members.stored? (module : UInt16) (m : Members) : Option StoredMembers := do
  let sorted := sortByPublicName Method.info m.instanceMethods
  let instanceMethods ← sorted.mapM (Method.stored? module)
  let staticMethods ← (sortByPublicName Method.info m.staticMethods).mapM (Method.stored? module)
  let properties ← (sortByPublicName Property.info m.properties).mapM (Property.stored? module)
  let firstInitializer ← (initializerIndex sorted).toOption
  return ⟨instanceMethods, staticMethods, properties, (sortNames m.protocols).map Utf8.upToNul,
    firstInitializer⟩

/-- The arrays of members lead to what is read of them, each list in order. -/
structure WrittenMembers.Leads (offsets : WrittenMembers) (im : Image) (module : UInt16)
    (m : Members) : Prop where
  instanceMethods : ∃ os, im.arrayOrEmpty offsets.instanceMethods = .ok os ∧
    (os.mapM im.method).toOption =
      (sortByPublicName Method.info m.instanceMethods).mapM (Method.stored? module)
  staticMethods : ∃ os, im.arrayOrEmpty offsets.staticMethods = .ok os ∧
    (os.mapM im.method).toOption =
      (sortByPublicName Method.info m.staticMethods).mapM (Method.stored? module)
  properties : ∃ os, im.arrayOrEmpty offsets.properties = .ok os ∧
    (os.mapM im.property).toOption =
      (sortByPublicName Property.info m.properties).mapM (Property.stored? module)
  protocols : ∃ os, im.arrayOrEmpty offsets.protocols = .ok os ∧
    im.texts os = .ok ((sortNames m.protocols).map Utf8.upToNul)
  firstInitializer : initializerIndex (sortByPublicName Method.info m.instanceMethods) =
    .ok offsets.firstInitializer

theorem Members.write_index {m : Members} {offsets : WrittenMembers}
    (run : Returns (m.write module) w offsets w') :
    initializerIndex (sortByPublicName Method.info m.instanceMethods) =
      .ok offsets.firstInitializer := by
  unfold Members.write at run
  simp only [returns_bind, returns_pure] at run
  obtain ⟨index, w₁, run₁, _, _, -, _, _, -, _, _, -, _, _, -, _, _, -, _, _, -, _, _, -, _, _, -,
    rfl, -⟩ := run
  exact noteInitializers_index run₁

theorem Members.write_leads {m : Members} {offsets : WrittenMembers} (sound : w.Sound)
    (run : Returns (m.write module) w offsets w') (inside : w'.In im) :
    offsets.Leads im module m := by
  have index := Members.write_index run
  unfold Members.write at run
  simp only [returns_bind, returns_pure] at run
  obtain ⟨_, w₁, run₁, instances, w₂, run₂, statics, w₃, run₃, properties, w₄, run₄,
    protocols, w₅, run₅, a₁, w₆, run₆, a₂, w₇, run₇, a₃, w₈, run₈, a₄, w₉, run₉, rfl, rfl⟩ := run
  have inside₈ := ((grows_arrayOrNull _).of_returns run₉).within inside
  have inside₇ := ((grows_arrayOrNull _).of_returns run₈).within inside₈
  have inside₆ := ((grows_arrayOrNull _).of_returns run₇).within inside₇
  have inside₅ := ((grows_arrayOrNull _).of_returns run₆).within inside₆
  have inside₄ := ((grows_texts _).of_returns run₅).within inside₅
  have inside₃ := ((Keeps.mapM (Property.grows_write module) _).of_returns run₄).within inside₄
  have inside₂ := ((Keeps.mapM (Method.grows_write module) _).of_returns run₃).within inside₃
  have sound₁ := ((grows_noteInitializers _).of_returns run₁).sound sound
  have sound₂ := ((Keeps.mapM (Method.grows_write module) _).of_returns run₂).sound sound₁
  have sound₃ := ((Keeps.mapM (Method.grows_write module) _).of_returns run₃).sound sound₂
  have sound₄ := ((Keeps.mapM (Property.grows_write module) _).of_returns run₄).sound sound₃
  have method : ∀ x, ∀ {w w' : Writer} {o : Offset}, w.Sound → Returns (x.write module) w o w' →
      w'.In im → (im.method o).toOption = Method.stored? module x :=
    fun _ _ _ _ => Method.write_shows
  have property : ∀ x, ∀ {w w' : Writer} {o : Offset}, w.Sound → Returns (x.write module) w o w' →
      w'.In im → (im.property o).toOption = Property.stored? module x :=
    fun _ _ _ _ => Property.write_shows
  constructor
  · exact ⟨instances, arrayOrNull_reads run₆ inside₆,
      mapM_shows (Method.grows_write module) method sound₁ run₂ inside₂⟩
  · exact ⟨statics, arrayOrNull_reads run₇ inside₇,
      mapM_shows (Method.grows_write module) method sound₂ run₃ inside₃⟩
  · exact ⟨properties, arrayOrNull_reads run₈ inside₈,
      mapM_shows (Property.grows_write module) property sound₃ run₄ inside₄⟩
  · exact ⟨protocols, arrayOrNull_reads run₉ inside,
      inside₅.texts_eq (texts_store sound₄ run₅)⟩
  · exact index

theorem nextPointer_eq {target next : Offset} (pointer : im.pointer o = .ok target)
    (past : im.pastPointer o = .ok next) : im.nextPointer o = .ok (target, next) := by
  rw [Image.nextPointer, past, pointer]
  rfl

/-- Members are read where the pointers to their arrays are. -/
theorem WrittenMembers.Leads.members_eq {offsets : WrittenMembers} {m : Members} {u : Unit}
    (leads : offsets.Leads im module m) (run : Returns offsets.writePointers w u w')
    (inside : w'.In im) :
    (im.members w.heap.size).toOption = (m.stored? module).map (·, w'.heap.size) := by
  unfold WrittenMembers.writePointers at run
  simp only [returns_bind, returns_pointer, returns_int16, returns_pure] at run
  obtain ⟨_, _, ⟨le₁, -, rfl⟩, _, _, ⟨le₂, -, rfl⟩, _, _, ⟨le₃, -, rfl⟩, _, _, ⟨le₄, -, rfl⟩,
    _, _, ⟨-, rfl⟩, -, rfl⟩ := run
  have inside₄ := (Writer.grew_append _ _).within inside
  have inside₃ := (Writer.grew_append _ _).within inside₄
  have inside₂ := (Writer.grew_append _ _).within inside₃
  have inside₁ := (Writer.grew_append _ _).within inside₂
  obtain ⟨p₁, past₁⟩ := inside₁.pointer_reads le₁
  obtain ⟨p₂, past₂⟩ := inside₂.pointer_reads le₂
  obtain ⟨p₃, past₃⟩ := inside₃.pointer_reads le₃
  obtain ⟨p₄, past₄⟩ := inside₄.pointer_reads le₄
  obtain ⟨⟨_, a₁, read₁⟩, ⟨_, a₂, read₂⟩, ⟨_, a₃, read₃⟩, ⟨_, a₄, read₄⟩, index⟩ := leads
  have last := Image.int16_of_has inside.has
  have past₅ : positionAfter _ 2 = _ := inside.positionAfter rfl
  rw [Image.members, nextPointer_eq p₁ past₁, Except.ok_bind]
  dsimp only
  rw [nextPointer_eq p₂ past₂, Except.ok_bind]
  dsimp only
  rw [nextPointer_eq p₃ past₃, Except.ok_bind]
  dsimp only
  rw [nextPointer_eq p₄ past₄, Except.ok_bind]
  dsimp only
  rw [a₁, Except.ok_bind, a₂, a₃, a₄, last, past₅]
  simp only [Except.ok_bind, Except.toOption_bind, read₁, read₂, read₃, read₄, Members.stored?, index]
  rcases (sortByPublicName Method.info m.instanceMethods).mapM (Method.stored? module) with _ | _
  · rfl
  rcases (sortByPublicName Method.info m.staticMethods).mapM (Method.stored? module) with _ | _
  · rfl
  rcases (sortByPublicName Property.info m.properties).mapM (Property.stored? module) with _ | _
  · rfl
  · rfl

/-! ## Fields -/

/-- What is read of fields. -/
def storedFields? (fields : List Field) : Option (List Field) :=
  (shownTypes? deepestType (fields.map Field.type)).map fun types =>
    ((fields.map Field.name).map Utf8.upToNul).zipWith Field.mk types

/-- The two offsets lead to what is read of the names and of the types of the fields. -/
structure FieldsLead (im : Image) (fields : List Field) (names types : Offset) : Prop where
  names : ∃ os, im.arrayOrEmpty names = .ok os ∧ os.length = fields.length ∧
    im.texts os = .ok ((fields.map Field.name).map Utf8.upToNul)
  types : (im.signatureOrEmpty types).toOption = shownTypes? deepestType (fields.map Field.type)

theorem writeFields_lead {fields : List Field} {written : Offset × Offset} (sound : w.Sound)
    (run : Returns (writeFields fields) w written w') (inside : w'.In im) :
    FieldsLead im fields written.1 written.2 := by
  unfold writeFields at run
  split_ifs at run with empty
  · obtain ⟨rfl, rfl⟩ := returns_pure.1 run
    rw [List.isEmpty_iff.1 empty]
    exact ⟨⟨[], rfl, rfl, rfl⟩, rfl⟩
  · simp only [returns_bind, returns_pure] at run
    obtain ⟨os, w₁, texts, names, w₂, array, types, w₃, signature, rfl, rfl⟩ := run
    have inside₂ := ((grows_writeSignature _).of_returns signature).within inside
    have inside₁ := ((grows_array _).of_returns array).within inside₂
    have sound₁ := ((grows_texts _).of_returns texts).sound sound
    have sound₂ := ((grows_array _).of_returns array).sound sound₁
    have stores := texts_store sound texts
    have array_ne : names ≠ 0 := by
      obtain ⟨-, -, rfl, -⟩ := returns_array.1 array
      exact w₁.heap.size_pos.ne'
    have types_ne : types ≠ 0 :=
      (w₂.heap.size_pos.trans_le (le_of_writeSignature signature)).ne'
    refine ⟨⟨os, ?_, ?_, inside₁.texts_eq stores⟩, ?_⟩
    · rw [Image.arrayOrEmpty, Offset.present?, if_neg array_ne]
      exact array_reads array inside₂
    · rw [← stores.length_eq, List.length_map]
    · rw [Image.signatureOrEmpty, Offset.present?, if_neg types_ne]
      exact writeSignature_shows sound₂ signature inside

theorem FieldsLead.fields_eq {fields : List Field} {names types past : Offset}
    (h : FieldsLead im fields names types) (toNames : im.pointer o = .ok names)
    (after : im.pastPointer o = .ok past) (toTypes : im.pointer past = .ok types) :
    (im.fields o).toOption = storedFields? fields := by
  obtain ⟨⟨os, array, length, texts⟩, signature⟩ := h
  rw [Image.fields, toNames, Except.ok_bind, after, Except.ok_bind, toTypes, Except.ok_bind, array,
    Except.ok_bind, Except.toOption_bind, signature, storedFields?]
  cases shown : shownTypes? deepestType (fields.map Field.type) with
  | none => rfl
  | some types =>
    have same : ¬ os.length ≠ types.length := by
      rw [length_shownTypes? shown, List.length_map, length]
      exact fun ne => ne rfl
    show Except.toOption _ = _
    rw [if_neg same]
    dsimp only
    rw [texts]
    rfl

/-! ## Declarations -/

/-- What is read of a body. A category is never written. -/
def Body.stored? (module : UInt16) : Body → Option StoredBody
  | .function signature _ => (shownTypes? deepestType signature).map .function
  | .record kind fields => (storedFields? fields).map (.record kind)
  | .code text => some (.code (Utf8.upToNul text))
  | .global type => (type.shown? deepestType).map .global
  | .interface base? members =>
    (members.stored? module).map (.interface (storedText (base?.getD "")))
  | .protocol members => (members.stored? module).map .protocol
  | .category _ _ => none

/-- The run wrote a record of the common shape: the names, what the record points at, the base at `o`,
and the rest, which is read as what is read of the body. -/
def Declaration.Shaped (module : UInt16) (d : Declaration) (w : Writer) (o : Offset) (w' : Writer) :
    Prop :=
  ∃ names w₁ w₂ w₃, Returns d.info.writeNames w names w₁ ∧ w₁.Grew w₂ ∧
    Returns (d.info.writeBase names d.flagByte module) w₂ o w₃ ∧ w₃.Grew w' ∧
      ∀ {im : Image}, w₁.Sound → w'.In im →
        (im.body o w₃.heap.size d.body.tag).toOption = d.body.stored? module

section

variable {info : Info}

theorem shaped_function {signature : List TypeExpr} {flags : FunctionFlags}
    (run : Returns (Declaration.write module ⟨info, .function signature flags⟩) w o w') :
    Declaration.Shaped module ⟨info, .function signature flags⟩ w o w' := by
  simp only [Declaration.write, returns_bind, returns_pointer, returns_pure] at run
  obtain ⟨names, w₁, run₁, types, w₂, run₂, record, w₃, run₃, _, _, ⟨le, -, rfl⟩, rfl, rfl⟩ := run
  refine ⟨names, w₁, w₂, w₃, run₁, (grows_writeSignature _).of_returns run₂, run₃,
    Writer.grew_append _ _, fun sound inside => ?_⟩
  have inside₃ := (Writer.grew_append _ _).within inside
  have inside₂ := ((info.grows_writeBase _ _ _).of_returns run₃).within inside₃
  show (Image.body _ _ _ .function).toOption = (shownTypes? deepestType signature).map .function
  rw [Image.body, (inside.pointer_reads le).1, Except.ok_bind, Except.toOption_bind,
    writeSignature_shows sound run₂ inside₂]
  cases shownTypes? deepestType signature <;> rfl

theorem shaped_global {type : TypeExpr}
    (run : Returns (Declaration.write module ⟨info, .global type⟩) w o w') :
    Declaration.Shaped module ⟨info, .global type⟩ w o w' := by
  simp only [Declaration.write, returns_bind, returns_pointer, returns_pure] at run
  obtain ⟨names, w₁, run₁, node, w₂, run₂, record, w₃, run₃, _, _, ⟨le, -, rfl⟩, rfl, rfl⟩ := run
  refine ⟨names, w₁, w₂, w₃, run₁, type.grows_write.of_returns run₂, run₃,
    Writer.grew_append _ _, fun sound inside => ?_⟩
  have inside₃ := (Writer.grew_append _ _).within inside
  have inside₂ := ((info.grows_writeBase _ _ _).of_returns run₃).within inside₃
  show (Image.body _ _ _ .var).toOption = (type.shown? deepestType).map .global
  rw [Image.body, (inside.pointer_reads le).1, Except.ok_bind, Except.toOption_bind,
    TypeExpr.write_shows sound run₂ inside₂]
  cases type.shown? deepestType <;> rfl

theorem shaped_code {text : String}
    (run : Returns (Declaration.write module ⟨info, .code text⟩) w o w') :
    Declaration.Shaped module ⟨info, .code text⟩ w o w' := by
  simp only [Declaration.write, returns_bind, returns_pointer, returns_pure] at run
  obtain ⟨names, w₁, run₁, code, w₂, run₂, record, w₃, run₃, _, _, ⟨le, -, rfl⟩, rfl, rfl⟩ := run
  refine ⟨names, w₁, w₂, w₃, run₁, (grows_text _).of_returns run₂, run₃,
    Writer.grew_append _ _, fun sound inside => ?_⟩
  have inside₃ := (Writer.grew_append _ _).within inside
  have inside₂ := ((info.grows_writeBase _ _ _).of_returns run₃).within inside₃
  show (Image.body _ _ _ .jsCode).toOption = _
  rw [Image.body, (inside.pointer_reads le).1, Except.ok_bind,
    inside₂.text_eq (text_stores sound run₂)]
  rfl

theorem body_ofRecord {record : Offset} {kind : RecordKind} {fields : List Field}
    (read : (im.fields o).toOption = storedFields? fields) :
    (im.body record o (.ofRecord kind)).toOption = (storedFields? fields).map (.record kind) := by
  cases kind with
  | struct =>
    show (im.body _ _ .struct).toOption = _
    rw [Image.body, Except.toOption_bind, read]
    cases storedFields? fields <;> rfl
  | union =>
    show (im.body _ _ .union).toOption = _
    rw [Image.body, Except.toOption_bind, read]
    cases storedFields? fields <;> rfl

theorem shaped_record {kind : RecordKind} {fields : List Field}
    (run : Returns (Declaration.write module ⟨info, .record kind fields⟩) w o w') :
    Declaration.Shaped module ⟨info, .record kind fields⟩ w o w' := by
  simp only [Declaration.write, returns_bind, returns_pointer, returns_pure] at run
  obtain ⟨names, w₁, run₁, lists, w₂, run₂, record, w₃, run₃, _, w₄, ⟨le, -, rfl⟩, _, _,
    ⟨le', -, rfl⟩, rfl, rfl⟩ := run
  refine ⟨names, w₁, w₂, w₃, run₁, (grows_writeFields _).of_returns run₂, run₃,
    trans_of _ (Writer.grew_append _ _) (Writer.grew_append _ _), fun sound inside => ?_⟩
  have inside₄ := (Writer.grew_append _ _).within inside
  have inside₃ := (Writer.grew_append _ _).within inside₄
  have inside₂ := ((info.grows_writeBase _ _ _).of_returns run₃).within inside₃
  obtain ⟨toNames, past⟩ := inside₄.pointer_reads le
  exact body_ofRecord ((writeFields_lead sound run₂ inside₂).fields_eq toNames past
    (inside.pointer_reads le').1)

theorem shaped_protocol {members : Members}
    (run : Returns (Declaration.write module ⟨info, .protocol members⟩) w o w') :
    Declaration.Shaped module ⟨info, .protocol members⟩ w o w' := by
  simp only [Declaration.write, returns_bind, returns_pure] at run
  obtain ⟨names, w₁, run₁, offsets, w₂, run₂, record, w₃, run₃, u, w₄, run₄, rfl, rfl⟩ := run
  refine ⟨names, w₁, w₂, w₃, run₁, (members.grows_write module).of_returns run₂, run₃,
    offsets.grows_writePointers.of_returns run₄, fun sound inside => ?_⟩
  have inside₃ := (offsets.grows_writePointers.of_returns run₄).within inside
  have inside₂ := ((info.grows_writeBase _ _ _).of_returns run₃).within inside₃
  have leads := Members.write_leads sound run₂ inside₂
  show (Image.body _ _ _ .protocol).toOption = (members.stored? module).map .protocol
  rw [Image.body, Except.toOption_bind, leads.members_eq run₄ inside]
  cases members.stored? module <;> rfl

theorem shaped_interface {base? : Option String} {members : Members}
    (run : Returns (Declaration.write module ⟨info, .interface base? members⟩) w o w') :
    Declaration.Shaped module ⟨info, .interface base? members⟩ w o w' := by
  simp only [Declaration.write, returns_bind, returns_pointer, returns_pure] at run
  obtain ⟨names, w₁, run₁, offsets, v, runMembers, baseName, w₂, runName, record, w₃, run₃, u, w₄,
    run₄, _, _, ⟨le, -, rfl⟩, rfl, rfl⟩ := run
  refine ⟨names, w₁, w₂, w₃, run₁, trans_of _ ((members.grows_write module).of_returns runMembers)
    ((grows_writeTextOrNull _).of_returns runName), run₃,
    trans_of _ (offsets.grows_writePointers.of_returns run₄) (Writer.grew_append _ _),
    fun sound inside => ?_⟩
  have inside₄ := (Writer.grew_append _ _).within inside
  have inside₃ := (offsets.grows_writePointers.of_returns run₄).within inside₄
  have inside₂ := ((info.grows_writeBase _ _ _).of_returns run₃).within inside₃
  have inside' := ((grows_writeTextOrNull _).of_returns runName).within inside₂
  have sound' := ((members.grows_write module).of_returns runMembers).sound sound
  have leads := Members.write_leads sound runMembers inside'
  show (Image.body _ _ _ .interface).toOption =
    (members.stored? module).map (.interface (storedText (base?.getD "")))
  rw [Image.body, Except.toOption_bind, leads.members_eq run₄ inside₄]
  cases members.stored? module with
  | none => rfl
  | some s =>
    show Except.toOption _ = _
    dsimp only
    rw [(inside.pointer_reads le).1, Except.ok_bind, writeTextOrNull_reads sound' runName inside₂]
    rfl

end

/-- Every record has the common shape, whatever is declared. -/
theorem Declaration.write_shape {d : Declaration} (run : Returns (d.write module) w o w') :
    d.Shaped module w o w' := by
  rcases d with ⟨info, body⟩
  cases body with
  | function => exact shaped_function run
  | global => exact shaped_global run
  | code => exact shaped_code run
  | record => exact shaped_record run
  | protocol => exact shaped_protocol run
  | interface => exact shaped_interface run
  | category => exact (returns_throw.1 run).elim

/-- A category is never written. -/
theorem Declaration.not_category_of_write {d : Declaration} (run : Returns (d.write module) w o w') :
    d.isCategory = false := by
  rcases d with ⟨info, body⟩
  cases body with
  | category => exact (returns_throw.1 run).elim
  | record kind => cases kind <;> rfl
  | _ => rfl

/-- The record is in what the run appended. -/
theorem Declaration.write_bounds {d : Declaration} (run : Returns (d.write module) w o w') :
    w.heap.size ≤ o ∧ o < w'.heap.size := by
  obtain ⟨names, w₁, w₂, w₃, run₁, grew, run₃, grew', -⟩ := d.write_shape run
  obtain ⟨rfl, lt⟩ := Info.writeBase_bounds run₃
  exact ⟨(d.info.grows_writeNames.of_returns run₁).size_le.trans grew.size_le,
    lt.trans_le grew'.size_le⟩

/-- The names of a record are read up to the first `U+0000` of each. -/
theorem Declaration.write_names {d : Declaration} (sound : w.Sound)
    (run : Returns (d.write module) w o w') (inside : w'.In im) :
    im.names o = .ok (Utf8.upToNul d.info.publicName, Utf8.upToNul d.info.name) := by
  obtain ⟨names, w₁, w₂, w₃, run₁, grew, run₃, grew', -⟩ := d.write_shape run
  have inside₃ := grew'.within inside
  have inside₂ := ((d.info.grows_writeBase _ _ _).of_returns run₃).within inside₃
  exact (Info.base_reads (Info.writeNames_reads sound run₁ (grew.within inside₂)) run₃ inside₃
    d.has_distinctName).1

/-- **What is read of a declaration**: its base, and its body past that. -/
theorem Declaration.write_shows {d : Declaration} (sound : w.Sound)
    (run : Returns (d.write module) w o w') (inside : w'.In im) :
    ∃ past, im.base o = .ok (d.info.stored d.flagByte module, past) ∧
      (im.body o past d.body.tag).toOption = d.body.stored? module := by
  obtain ⟨names, w₁, w₂, w₃, run₁, grew, run₃, grew', body⟩ := d.write_shape run
  have inside₃ := grew'.within inside
  have inside₂ := ((d.info.grows_writeBase _ _ _).of_returns run₃).within inside₃
  have base := (Info.base_reads (Info.writeNames_reads sound run₁ (grew.within inside₂)) run₃ inside₃
    d.has_distinctName).2
  exact ⟨w₃.heap.size, base, body ((d.info.grows_writeNames.of_returns run₁).sound sound) inside⟩

/-! ## Declarations that can be read back -/

theorem Members.plain_method {m : Members} {x : Method} (plain : Plain m.texts m.types)
    (h : x ∈ m.instanceMethods ∨ x ∈ m.staticMethods) : Plain x.texts x.signature := by
  refine plain.mono (fun s hs => ?_) (fun t ht => ?_)
  · have all := List.mem_flatMap.2 ⟨x, List.mem_append.2 h, hs⟩
    exact List.mem_append_left _ (List.mem_append_left _ all)
  · refine List.mem_append_left _ (List.mem_append.2 (h.imp (fun h => ?_) fun h => ?_))
    all_goals exact List.mem_flatMap.2 ⟨x, h, ht⟩

theorem Members.plain_property {m : Members} {p : Property} (plain : Plain m.texts m.types)
    (h : p ∈ m.properties) :
    Plain p.texts (accessorTypes p.getter? ++ accessorTypes p.setter?) := by
  refine plain.mono (fun s hs => ?_) (fun t ht => ?_)
  · exact List.mem_append_left _ (List.mem_append_right _ (List.mem_flatMap.2 ⟨p, h, hs⟩))
  · exact List.mem_append_right _ (List.mem_flatMap.2 ⟨p, h, ht⟩)

theorem Members.mirrors_stored {m : Members} {index : Int16} (plain : Plain m.texts m.types)
    (found : initializerIndex (sortByPublicName Method.info m.instanceMethods) = .ok index) :
    ∃ s, m.stored? module = some s ∧ s.Mirrors module m := by
  obtain ⟨instances, storedInstances, mirrorInstances⟩ := Option.exists_mapM_eq_some
    fun x (hx : x ∈ sortByPublicName Method.info m.instanceMethods) =>
      x.mirrors_stored module (plain_method plain (.inl (mem_sortByPublicName.1 hx)))
  obtain ⟨statics, storedStatics, mirrorStatics⟩ := Option.exists_mapM_eq_some
    fun x (hx : x ∈ sortByPublicName Method.info m.staticMethods) =>
      x.mirrors_stored module (plain_method plain (.inr (mem_sortByPublicName.1 hx)))
  obtain ⟨properties, storedProperties, mirrorProperties⟩ := Option.exists_mapM_eq_some
    fun x (hx : x ∈ sortByPublicName Property.info m.properties) =>
      x.mirrors_stored module (plain_property plain (mem_sortByPublicName.1 hx))
  have names : (sortNames m.protocols).map Utf8.upToNul = sortNames m.protocols :=
    map_upToNul fun s hs =>
      plain.texts s (List.mem_append_right _ ((sortNames_perm _).subset hs))
  unfold Members.stored?
  dsimp only
  rw [storedInstances, storedStatics, storedProperties, found, names]
  exact ⟨_, rfl, ⟨_, stablySorted_sortByPublicName _ _, mirrorInstances, toInt_initializerIndex found⟩,
    ⟨_, stablySorted_sortByPublicName _ _, mirrorStatics⟩,
    ⟨_, stablySorted_sortByPublicName _ _, mirrorProperties⟩,
    sortNames_perm _, pairwise_sortNames _⟩

theorem storedFields?_eq {fields : List Field}
    (plain : Plain (fields.flatMap fun f => f.name :: f.type.texts) (fields.map Field.type)) :
    storedFields? fields = some fields := by
  have names : ∀ s ∈ fields.map Field.name, Utf8.NulFree s := by
    intro s hs
    obtain ⟨f, hf, rfl⟩ := List.mem_map.1 hs
    exact plain.texts _ (List.mem_flatMap.2 ⟨f, hf, List.mem_cons_self⟩)
  have types : ∀ t ∈ fields.map Field.type, ∀ s ∈ t.texts, Utf8.NulFree s := by
    intro t ht s hs
    obtain ⟨f, hf, rfl⟩ := List.mem_map.1 ht
    exact plain.texts _ (List.mem_flatMap.2 ⟨f, hf, List.mem_cons_of_mem _ hs⟩)
  rw [storedFields?, shownTypes?_of_plain plain.types types, map_upToNul names, Option.map_some,
    zipWith_fields]

theorem storedText_eq {base? : Option String} (plain : ∀ s ∈ base?, Utf8.NulFree s) :
    storedText (base?.getD "") = base?.filter (· ≠ "") := by
  unfold storedText
  cases base? with
  | none => rfl
  | some s =>
    by_cases empty : s = ""
    · subst empty
      rfl
    · simp [Option.filter, empty, Utf8.upToNul_eq_self (plain s rfl)]

/-- A body that was written is stored as it is, if its texts and types can be read back. -/
theorem Declaration.mirrors_stored {d : Declaration} (run : Returns (d.write module) w o w')
    (plain : d.Plain) : ∃ s, d.body.stored? module = some s ∧ s.Mirrors module d.body := by
  rcases d with ⟨info, body⟩
  have texts : ∀ s ∈ body.texts, Utf8.NulFree s := fun s hs =>
    plain.texts s (List.mem_append_right _ hs)
  have types : ∀ t ∈ body.types, t.height ≤ deepestType := plain.types
  cases body with
  | function signature flags =>
    have shown : shownTypes? deepestType signature = some signature :=
      shownTypes?_of_plain types fun t ht s hs => texts s (List.mem_flatMap.2 ⟨t, ht, hs⟩)
    refine ⟨_, ?_, .function signature flags⟩
    rw [Body.stored?, shown]
    rfl
  | record kind fields =>
    refine ⟨_, ?_, .record kind fields⟩
    rw [Body.stored?, storedFields?_eq ⟨texts, types⟩]
    rfl
  | code text =>
    refine ⟨_, ?_, .code text⟩
    rw [Body.stored?, Utf8.upToNul_eq_self (texts text List.mem_cons_self)]
  | global type =>
    have shown := type.shown?_eq (types type List.mem_cons_self) fun p hp s hs =>
      texts s (List.mem_flatMap.2 ⟨p, hp, hs⟩)
    refine ⟨_, ?_, .global type⟩
    rw [Body.stored?, shown]
    rfl
  | interface base? members =>
    simp only [Declaration.write, returns_bind] at run
    obtain ⟨_, _, -, _, _, run, -⟩ := run
    obtain ⟨s, stored, mirrors⟩ := Members.mirrors_stored
      ⟨fun s hs => texts s (List.mem_append_right _ hs), types⟩ (Members.write_index run)
    have plainBase : ∀ s ∈ base?, Utf8.NulFree s := fun s hs =>
      texts s (List.mem_append_left _ (Option.mem_toList.2 hs))
    refine ⟨_, ?_, .interface base? mirrors⟩
    rw [Body.stored?, stored, storedText_eq plainBase]
    rfl
  | protocol members =>
    simp only [Declaration.write, returns_bind] at run
    obtain ⟨_, _, -, _, _, run, -⟩ := run
    obtain ⟨s, stored, mirrors⟩ := Members.mirrors_stored ⟨texts, types⟩ (Members.write_index run)
    refine ⟨_, ?_, .protocol mirrors⟩
    rw [Body.stored?, stored]
    rfl
  | category => exact (returns_throw.1 run).elim

/-- **A declaration is read back from its record**: its base, and its body past that. -/
theorem Declaration.write_reads {d : Declaration} (sound : w.Sound)
    (run : Returns (d.write module) w o w') (inside : w'.In im) (plain : d.Plain) :
    ∃ past s, im.base o = .ok (d.info.stored d.flagByte module, past) ∧
      im.body o past d.body.tag = .ok s ∧ StoredBody.Mirrors module d.body s := by
  obtain ⟨past, base, shown⟩ := d.write_shows sound run inside
  obtain ⟨s, stored, mirrors⟩ := d.mirrors_stored run plain
  exact ⟨past, s, base, Except.toOption_eq_some.1 (shown.trans stored), mirrors⟩

end

end DeclArchive
