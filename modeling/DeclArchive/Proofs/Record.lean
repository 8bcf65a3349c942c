import DeclArchive.Proofs.Stored
import DeclArchive.Stored.Read

/-!
# Members survive writing

The names of a record are read wherever its first pointer leads (`Info.NamesAt`), up to the first
`U+0000` of each, and its base is read as it was written (`Info.base_reads`). What is read of a method or
property depends on nothing but what was written and the place of its module (`Method.write_shows`,
`Property.write_shows`). If its texts and types can be read back it is what was written
(`Method.write_reads`, `Property.write_reads`).
-/

namespace DeclArchive

open Write

/-! ## Growth -/

theorem Info.grows_writeNames (i : Info) : Grows i.writeNames := by
  unfold Info.writeNames
  split_ifs
  · exact (grows_text _).bind fun _ => (grows_text _).bind fun _ => (grows_pointer _).bind fun _ =>
      (grows_pointer _).bind fun _ => keeps_pure _
  · exact grows_text _

theorem Info.onlyAppends_writeBase (i : Info) (names : Offset) (flags : UInt8) (module : UInt16) :
    OnlyAppends (i.writeBase names flags module) :=
  (onlyAppends_pointer _).bind fun _ => (onlyAppends_bytes _).bind fun _ =>
    (onlyAppends_bytes _).bind fun _ => (onlyAppends_bytes _).bind fun _ => keeps_pure _

theorem Info.grows_writeBase (i : Info) (names : Offset) (flags : UInt8) (module : UInt16) :
    Grows (i.writeBase names flags module) := (i.onlyAppends_writeBase names flags module).grows

theorem grows_writeTextOrNull (s : String) : Grows (writeTextOrNull s) := by
  unfold writeTextOrNull
  split_ifs
  · exact keeps_pure _
  · exact grows_text s

theorem Method.grows_write (module : UInt16) (m : Method) : Grows (m.write module) :=
  m.info.grows_writeNames.bind fun _ => (grows_writeSignature _).bind fun _ =>
    (grows_writeTextOrNull _).bind fun _ => (m.info.grows_writeBase _ _ _).bind fun _ =>
      (grows_pointer _).bind fun _ => (grows_pointer _).bind fun _ => keeps_pure _

theorem grows_writeAccessor (module : UInt16) (m? : Option Method) :
    Grows (writeAccessor module m?) := by
  cases m? with
  | none => exact keeps_pure _
  | some m => exact m.grows_write module

theorem Property.grows_write (module : UInt16) (p : Property) : Grows (p.write module) :=
  p.info.grows_writeNames.bind fun _ => (grows_writeAccessor _ _).bind fun _ =>
    (grows_writeAccessor _ _).bind fun _ => (p.info.grows_writeBase _ _ _).bind fun _ =>
      (grows_pointer _).bind fun _ => (grows_pointer _).bind fun _ => keeps_pure _

section

variable {im : Image} {w w' : Writer} {o : Offset}

/-! ## Names -/

/-- Both names are read from `o` on, each up to its first `U+0000`. -/
def Info.NamesAt (i : Info) (im : Image) (o : Offset) : Prop :=
  if i.hasDistinctName then
    ∃ shown past name, im.pointer o = .ok shown ∧ im.pastPointer o = .ok past ∧
      im.pointer past = .ok name ∧ im.text shown = .ok (Utf8.upToNul i.publicName) ∧
        im.text name = .ok (Utf8.upToNul i.name)
  else im.text o = .ok (Utf8.upToNul i.name)

theorem Info.publicName_eq {i : Info} (h : i.hasDistinctName = false) : i.publicName = i.name := by
  unfold Info.hasDistinctName at h
  simpa using h

theorem Info.writeNames_reads {i : Info} (sound : w.Sound) (run : Returns i.writeNames w o w')
    (inside : w'.In im) : i.NamesAt im o := by
  unfold Info.writeNames at run
  unfold Info.NamesAt
  split_ifs at run ⊢ with distinct
  · simp only [returns_bind, returns_pointer, returns_pure] at run
    obtain ⟨shown, u, first, name, v, second, _, _, ⟨le, rfl, rfl⟩, _, _, ⟨le', rfl, rfl⟩, rfl, rfl⟩ :=
      run
    have within := (Writer.grew_append _ _).within inside
    have within' := (Writer.grew_append _ _).within within
    have sound' := ((grows_text _).of_returns first).sound sound
    obtain ⟨pointer, past⟩ := within.pointer_reads le
    exact ⟨shown, _, name, pointer, past, (inside.pointer_reads le').1,
      (((grows_text _).of_returns second).within within').text_eq (text_stores sound first),
      within'.text_eq (text_stores sound' second)⟩
  · exact inside.text_eq (text_stores sound run)

theorem Info.NamesAt.names_eq {i : Info} {record target : Offset} {flags : UInt8}
    (h : i.NamesAt im target) (pointer : im.pointer record = .ok target)
    (past : im.pastPointer record = .ok o) (byte : im.byte o = .ok flags)
    (flag : FlagByte.has flags FlagByte.distinctName = i.hasDistinctName) :
    im.names record = .ok (Utf8.upToNul i.publicName, Utf8.upToNul i.name) := by
  unfold Info.NamesAt at h
  rw [Image.names, pointer, Except.ok_bind, past, Except.ok_bind, byte, Except.ok_bind, flag]
  split_ifs at h ⊢ with distinct
  · obtain ⟨shown, past, name, first, after, second, text, text'⟩ := h
    rw [first, Except.ok_bind, text, Except.ok_bind, after, Except.ok_bind, second, Except.ok_bind,
      text']
    rfl
  · rw [h, Info.publicName_eq (Bool.not_eq_true _ ▸ distinct)]
    rfl

/-! ## Bases -/

/-- What is read of a base. -/
def Info.stored (i : Info) (flags : UInt8) (module : UInt16) : StoredBase :=
  ⟨Utf8.upToNul i.publicName, Utf8.upToNul i.name, flags, module,
    VersionByte.decode (VersionByte.encode i.introduced)⟩

theorem Info.mirrors_stored {i : Info} (plain : ∀ s ∈ i.texts, Utf8.NulFree s) (flags : UInt8)
    (module : UInt16) : (i.stored flags module).Mirrors module i flags where
  publicName := Utf8.upToNul_eq_self (plain _ List.mem_cons_self)
  name := Utf8.upToNul_eq_self (plain _ (List.mem_cons_of_mem _ List.mem_cons_self))
  flagByte := rfl
  moduleIndex := rfl
  introduced := rfl

/-- A base is read where it was written, and the reader stops at its end. -/
theorem Info.base_reads {i : Info} {target : Offset} {flags : UInt8} {module : UInt16}
    (names : i.NamesAt im target) (run : Returns (i.writeBase target flags module) w o w')
    (inside : w'.In im) (flag : FlagByte.has flags FlagByte.distinctName = i.hasDistinctName) :
    im.names o = .ok (Utf8.upToNul i.publicName, Utf8.upToNul i.name) ∧
      im.base o = .ok (i.stored flags module, w'.heap.size) := by
  unfold Info.writeBase at run
  simp only [returns_bind, returns_pointer, returns_byte, returns_uint16, returns_pure] at run
  obtain ⟨_, _, ⟨le, rfl, rfl⟩, _, _, ⟨-, rfl⟩, _, _, ⟨-, rfl⟩, _, _, ⟨-, rfl⟩, rfl, rfl⟩ := run
  have within := (Writer.grew_append _ _).within inside
  have within' := (Writer.grew_append _ _).within within
  obtain ⟨pointer, past⟩ := ((Writer.grew_append _ _).within within').pointer_reads le
  obtain ⟨byte, past'⟩ := byte_reads within'
  obtain ⟨version, -⟩ := byte_reads inside
  have module' := Image.uint16_of_has within.has
  have names' := names.names_eq pointer past byte flag
  -- the positions of the version and of the end are counted from the flags
  rw [Writer.append_append _ [flags]] at within version inside ⊢
  rw [Writer.append_append _ ([flags] ++ _)] at inside ⊢
  have toVersion : positionAfter _ 3 = _ := within.positionAfter rfl
  have toEnd : positionAfter _ 4 = _ := inside.positionAfter rfl
  refine ⟨names', ?_⟩
  rw [Image.base, names', Except.ok_bind]
  dsimp only
  rw [past, Except.ok_bind, byte, Except.ok_bind, past', Except.ok_bind, module', Except.ok_bind,
    toVersion, Except.ok_bind, version, Except.ok_bind, toEnd]
  rfl

/-- The length of a base. -/
theorem Info.writeBase_size {i : Info} {target : Offset} {flags : UInt8} {module : UInt16}
    (run : Returns (i.writeBase target flags module) w o w') :
    w'.heap.size = w.heap.size + (w.format.pointerWidth + 4) := by
  unfold Info.writeBase at run
  simp only [returns_bind, returns_pointer, returns_byte, returns_uint16, returns_pure] at run
  obtain ⟨_, _, ⟨-, rfl, rfl⟩, _, _, ⟨-, rfl⟩, _, _, ⟨-, rfl⟩, _, _, ⟨-, rfl⟩, rfl, rfl⟩ := run
  simp only [Writer.append_heap, Heap.size_append, LittleEndian.length_encode, List.length_singleton,
    Nat.add_assoc]

/-- A base lies between the ends of the heap before and after. -/
theorem Info.writeBase_bounds {i : Info} {target : Offset} {flags : UInt8} {module : UInt16}
    (run : Returns (i.writeBase target flags module) w o w') :
    o = w.heap.size ∧ w.heap.size < w'.heap.size := by
  unfold Info.writeBase at run
  simp only [returns_bind, returns_pointer, returns_byte, returns_uint16, returns_pure] at run
  obtain ⟨_, _, ⟨-, rfl, rfl⟩, _, _, ⟨-, rfl⟩, _, _, ⟨-, rfl⟩, _, _, ⟨-, rfl⟩, rfl, rfl⟩ := run
  refine ⟨rfl, ?_⟩
  simp only [Writer.append_heap, Heap.size_append, List.length_singleton]
  omega

/-! ## Methods -/

/-- What is read of a text that is left out if it is empty. -/
def storedText (s : String) : Option String := if s = "" then none else some (Utf8.upToNul s)

theorem writeTextOrNull_reads {s : String} (sound : w.Sound) (run : Returns (writeTextOrNull s) w o w')
    (inside : w'.In im) : im.text? o = .ok (storedText s) := by
  unfold writeTextOrNull at run
  unfold storedText
  by_cases empty : s = ""
  · rw [if_pos (String.isEmpty_iff.2 empty), returns_pure] at run
    obtain ⟨rfl, rfl⟩ := run
    rw [if_pos empty]
    rfl
  · rw [if_neg (mt String.isEmpty_iff.1 empty)] at run
    have stores := text_stores sound run
    rw [if_neg empty, Image.text?, Offset.present?, if_neg stores.1]
    dsimp only
    rw [inside.text_eq stores]
    rfl

/-- What is read of a method. -/
def Method.stored? (module : UInt16) (m : Method) : Option StoredMethod := do
  let signature ← shownTypes? deepestType m.signature
  return ⟨m.info.stored (FlagByte.ofMethod m.info m.flags) module, signature, storedText m.encoding⟩

theorem Method.write_shows {module : UInt16} {m : Method} (sound : w.Sound)
    (run : Returns (m.write module) w o w') (inside : w'.In im) :
    (im.method o).toOption = m.stored? module := by
  unfold Method.write at run
  simp only [returns_bind, returns_pointer, returns_pure] at run
  obtain ⟨names, w₁, run₁, signature, w₂, run₂, encoding, w₃, run₃, record, w₄, run₄, _, w₅,
    ⟨le, rfl, rfl⟩, _, w₆, ⟨le', rfl, rfl⟩, rfl, rfl⟩ := run
  have inside₅ := (Writer.grew_append _ _).within inside
  have inside₄ := (Writer.grew_append _ _).within inside₅
  have inside₃ := ((m.info.grows_writeBase _ _ _).of_returns run₄).within inside₄
  have inside₂ := ((grows_writeTextOrNull _).of_returns run₃).within inside₃
  have inside₁ := ((grows_writeSignature _).of_returns run₂).within inside₂
  have sound₁ := (m.info.grows_writeNames.of_returns run₁).sound sound
  have sound₂ := ((grows_writeSignature _).of_returns run₂).sound sound₁
  obtain ⟨-, base⟩ := Info.base_reads (Info.writeNames_reads sound run₁ inside₁) run₄ inside₄
    (congrArg StoredFlags.hasName (FlagByte.ofByte_ofMethod m.info m.flags))
  obtain ⟨toSignature, past⟩ := inside₅.pointer_reads le
  obtain ⟨toEncoding, -⟩ := inside.pointer_reads le'
  have read := writeSignature_shows sound₁ run₂ inside₂
  have text := writeTextOrNull_reads sound₂ run₃ inside₃
  rw [Image.method, base, Except.ok_bind]
  dsimp only
  rw [toSignature, Except.ok_bind, Except.toOption_bind, read, past, Method.stored?]
  congr 1
  funext signature
  rw [Except.ok_bind, toEncoding, Except.ok_bind, text]
  rfl

theorem Method.mirrors_stored {m : Method} (module : UInt16) (plain : Plain m.texts m.signature) :
    ∃ s, m.stored? module = some s ∧ s.Mirrors module m := by
  have shown := shownTypes?_of_plain plain.types fun t ht s hs =>
    plain.texts s (List.mem_append_right _ (List.mem_cons_of_mem _ (List.mem_flatMap.2 ⟨t, ht, hs⟩)))
  have plainEncoding : Utf8.NulFree m.encoding :=
    plain.texts _ (List.mem_append_right _ List.mem_cons_self)
  unfold Method.stored? storedText
  rw [shown, Utf8.upToNul_eq_self plainEncoding]
  refine ⟨_, rfl, ?_, FlagByte.ofByte_ofMethod m.info m.flags, rfl, rfl⟩
  exact Info.mirrors_stored (fun s hs => plain.texts s (List.mem_append_left _ hs)) _ _

/-- **A method is read back from its record.** -/
theorem Method.write_reads {module : UInt16} {m : Method} (sound : w.Sound)
    (run : Returns (m.write module) w o w') (inside : w'.In im) (plain : Plain m.texts m.signature) :
    ∃ s, im.method o = .ok s ∧ s.Mirrors module m := by
  obtain ⟨s, stored, mirrors⟩ := m.mirrors_stored module plain
  exact ⟨s, Except.toOption_eq_some.1 ((write_shows sound run inside).trans stored), mirrors⟩

theorem Method.le_of_write {module : UInt16} {m : Method} (run : Returns (m.write module) w o w') :
    w.heap.size ≤ o := by
  unfold Method.write at run
  simp only [returns_bind, returns_pure] at run
  obtain ⟨_, _, run₁, _, _, run₂, _, _, run₃, _, _, run₄, _, _, -, _, _, -, rfl, -⟩ := run
  have first := (m.info.grows_writeNames.of_returns run₁).size_le
  have second := ((grows_writeSignature _).of_returns run₂).size_le
  have third := ((grows_writeTextOrNull _).of_returns run₃).size_le
  rw [(Info.writeBase_bounds run₄).1]
  exact first.trans (second.trans third)

/-! ## Properties -/

theorem writeAccessor_shows {module : UInt16} {m? : Option Method} (sound : w.Sound)
    (run : Returns (writeAccessor module m?) w o w') (inside : w'.In im) :
    (im.accessor o).toOption = m?.mapM (Method.stored? module) := by
  cases m? with
  | none =>
    obtain ⟨rfl, rfl⟩ := returns_pure.1 run
    rfl
  | some m =>
    have read := Method.write_shows sound run inside
    have ne : o ≠ 0 := (w.heap.size_pos.trans_le (Method.le_of_write run)).ne'
    rw [Image.accessor, Offset.present?, if_neg ne]
    dsimp only
    rw [Except.toOption_bind, read]
    show _ = some <$> m.stored? module
    cases m.stored? module <;> rfl

/-- What is read of a property. -/
def Property.stored? (module : UInt16) (p : Property) : Option StoredProperty := do
  let getter ← p.getter?.mapM (Method.stored? module)
  let setter ← p.setter?.mapM (Method.stored? module)
  let flags := FlagByte.ofProperty p.info p.optional p.getter?.isSome p.setter?.isSome
  return ⟨p.info.stored flags module, getter, setter⟩

theorem Property.write_shows {module : UInt16} {p : Property} (sound : w.Sound)
    (run : Returns (p.write module) w o w') (inside : w'.In im) :
    (im.property o).toOption = p.stored? module := by
  unfold Property.write at run
  simp only [returns_bind, returns_pointer, returns_pure] at run
  obtain ⟨names, w₁, run₁, getter, w₂, run₂, setter, w₃, run₃, record, w₄, run₄, _, w₅,
    ⟨le, rfl, rfl⟩, _, w₆, ⟨le', rfl, rfl⟩, rfl, rfl⟩ := run
  have inside₅ := (Writer.grew_append _ _).within inside
  have inside₄ := (Writer.grew_append _ _).within inside₅
  have inside₃ := ((p.info.grows_writeBase _ _ _).of_returns run₄).within inside₄
  have inside₂ := ((grows_writeAccessor _ _).of_returns run₃).within inside₃
  have inside₁ := ((grows_writeAccessor _ _).of_returns run₂).within inside₂
  have sound₁ := (p.info.grows_writeNames.of_returns run₁).sound sound
  have sound₂ := ((grows_writeAccessor _ _).of_returns run₂).sound sound₁
  have flags :=
    FlagByte.ofByte_ofProperty p.info p.optional p.getter?.isSome p.setter?.isSome
  obtain ⟨-, base⟩ := Info.base_reads (Info.writeNames_reads sound run₁ inside₁) run₄ inside₄
    (congrArg StoredFlags.hasName flags)
  obtain ⟨toGetter, past⟩ := inside₅.pointer_reads le
  obtain ⟨toSetter, -⟩ := inside.pointer_reads le'
  rw [Image.property, base, Except.ok_bind]
  dsimp only
  rw [toGetter, Except.ok_bind, past, Except.ok_bind, toSetter, Except.ok_bind, Except.toOption_bind,
    writeAccessor_shows sound₁ run₂ inside₂, Property.stored?]
  congr 1
  funext getter?
  rw [Except.toOption_bind, writeAccessor_shows sound₂ run₃ inside₃]
  rfl

theorem Property.plain_accessor {p : Property} {m : Method}
    (plain : Plain p.texts (accessorTypes p.getter? ++ accessorTypes p.setter?))
    (h : m ∈ p.getter? ∨ m ∈ p.setter?) : Plain m.texts m.signature := by
  refine plain.mono (fun s hs => ?_) (fun t ht => ?_)
  · refine List.mem_append_right _ (List.mem_flatMap.2 ⟨m, List.mem_append.2 ?_, hs⟩)
    exact h.imp Option.mem_toList.2 Option.mem_toList.2
  · refine List.mem_append.2 (h.imp (fun e => ?_) fun e => ?_)
    all_goals
      rw [Option.mem_def.1 e]
      exact ht

theorem Option.mirrors_stored {m? : Option Method} (module : UInt16)
    (plain : ∀ m ∈ m?, Plain m.texts m.signature) :
    ∃ s?, m?.mapM (Method.stored? module) = some s? ∧
      Option.Rel (StoredMethod.Mirrors module) m? s? := by
  cases m? with
  | none => exact ⟨none, rfl, .none⟩
  | some m =>
    obtain ⟨s, stored, mirrors⟩ := m.mirrors_stored module (plain m rfl)
    exact ⟨some s, congrArg (Option.map some) stored, .some mirrors⟩

theorem Property.mirrors_stored {p : Property} (module : UInt16)
    (plain : Plain p.texts (accessorTypes p.getter? ++ accessorTypes p.setter?)) :
    ∃ s, p.stored? module = some s ∧ s.Mirrors module p := by
  obtain ⟨getter?, readGetter, mirrorsGetter⟩ :=
    Option.mirrors_stored module fun m h => plain_accessor plain (.inl h)
  obtain ⟨setter?, readSetter, mirrorsSetter⟩ :=
    Option.mirrors_stored module fun m h => plain_accessor plain (.inr h)
  unfold Property.stored?
  rw [readGetter, readSetter]
  refine ⟨_, rfl, ?_, FlagByte.ofByte_ofProperty p.info p.optional _ _, mirrorsGetter, mirrorsSetter⟩
  exact Info.mirrors_stored (fun s hs => plain.texts s (List.mem_append_left _ hs)) _ _

/-- **A property is read back from its record**, with its accessors. -/
theorem Property.write_reads {module : UInt16} {p : Property} (sound : w.Sound)
    (run : Returns (p.write module) w o w') (inside : w'.In im)
    (plain : Plain p.texts (accessorTypes p.getter? ++ accessorTypes p.setter?)) :
    ∃ s, im.property o = .ok s ∧ s.Mirrors module p := by
  obtain ⟨s, stored, mirrors⟩ := p.mirrors_stored module plain
  exact ⟨s, Except.toOption_eq_some.1 ((write_shows sound run inside).trans stored), mirrors⟩

theorem Property.le_of_write {module : UInt16} {p : Property}
    (run : Returns (p.write module) w o w') : w.heap.size ≤ o := by
  unfold Property.write at run
  simp only [returns_bind, returns_pure] at run
  obtain ⟨_, _, run₁, _, _, run₂, _, _, run₃, _, _, run₄, _, _, -, _, _, -, rfl, -⟩ := run
  have first := (p.info.grows_writeNames.of_returns run₁).size_le
  have second := ((grows_writeAccessor _ _).of_returns run₂).size_le
  have third := ((grows_writeAccessor _ _).of_returns run₃).size_le
  rw [(Info.writeBase_bounds run₄).1]
  exact first.trans (second.trans third)

end

end DeclArchive
