import DeclArchive.Proofs.Container.RoundTrip
import DeclArchive.Proofs.Container.Safety
import DeclArchive.Proofs.Widening

/-!
# Containers with wider pointers

Two builds of one forest go side by side, the second with wider pointers. The builders stay alike
(`Builder.Widens`), so where the first build succeeds, the second does, and their parts are counterparts
(`Forest.widens_build`). What fits its field in the one container does so in the other
(`Parts.Widens.fit`).

What is read from a record depends on the declaration and on its module only
(`Container.declaration_shows`), and both builds register the same declarations in the same order and
number of buckets. So a name leads to the same declaration in both (`wider_pointers`).
-/

namespace DeclArchive

open Write

variable {f f' : Format}

/-! ## The index -/

/-- The indexes have entries at counterparts in the same buckets. -/
structure NameIndex.Widens (f f' : Format) (t t' : NameIndex) : Prop where
  size : t'.size = t.size
  capacity : t'.capacity = t.capacity
  bucket : ∀ b (h : b < t.buckets.size) (h' : b < t'.buckets.size),
    List.Forall₂ (Stretch f f') (t.buckets[b].map Prod.snd) (t'.buckets[b].map Prod.snd)

namespace NameIndex

variable {t t' : NameIndex}

theorem widens_empty (capacity : Nat) : Widens f f' (empty capacity) (empty capacity) where
  size := rfl
  capacity := rfl
  bucket b h h' := by
    rw [(holds_empty capacity).bucket b h]
    exact .nil

theorem Widens.add (h : t.Widens f f' t') (name : String) {o o' : Offset}
    (alike : Stretch f f' o o') : Widens f f' (t.add name o) (t'.add name o') where
  size := congrArg Nat.succ h.size
  capacity := by rw [capacity_add, capacity_add, h.capacity]
  bucket b lt lt' := by
    have before := h.bucket b (by rwa [← Array.size_modify]) (by rwa [← Array.size_modify])
    simp only [NameIndex.add, Array.getElem_modify, h.capacity]
    split_ifs
    · rw [List.map_append, List.map_append]
      exact List.rel_append before (.cons alike .nil)
    · exact before

theorem widens_write (wide : f.Widens f') (h : t.Widens f f' t') :
    Write.Widens f f' (List.Forall₂ (Stretch f f')) t.write t'.write := by
  have buckets : List.Forall₂ (fun chain chain' : List (String × Offset) =>
      List.Forall₂ (Stretch f f') (chain.map Prod.snd) (chain'.map Prod.snd))
      t.buckets.toList t'.buckets.toList := by
    refine List.forall₂_iff_get.2 ⟨?_, fun b lt lt' => h.bucket b lt lt'⟩
    rw [Array.length_toList, Array.length_toList]
    exact h.capacity.symm
  exact (Follows.mapM (fun _ _ alike => widens_arrayOrNull wide alike) buckets).bind
    fun _ _ slots => (widens_note _ _).bind fun _ _ _ => follows_pure slots

end NameIndex

/-! ## Builders -/

/-- The builders have written and registered the same. -/
structure Builder.Widens (f f' : Format) (b b' : Builder) : Prop where
  writer : b.writer.Widens f f' b'.writer
  index : b.index.Widens f f' b'.index

/-- Where `x` succeeds over the narrower heap, `y` succeeds over the wider one, and both return and leave
counterparts. -/
abbrev Build.Widens (f f' : Format) {α β : Type} (S : α → β → Prop) (x : Build α) (y : Build β) :
    Prop := Follows (Builder.Widens f f') S x y

namespace Build

theorem widens_write {α β : Type} {S : α → β → Prop} {x : Write α} {y : Write β}
    (h : Write.Widens f f' S x y) : Widens f f' S (write x) (write y) := by
  intro b b' a c related run
  obtain ⟨run, index⟩ := returns_write.1 run
  obtain ⟨a', w', run', alike, writer⟩ := h related.writer run
  exact ⟨a', ⟨w', b'.index⟩, returns_write.2 ⟨run', rfl⟩, alike, writer, index ▸ related.index⟩

theorem widens_addName (name : String) {o o' : Offset} (alike : Stretch f f' o o') :
    Widens f f' (fun _ _ => True) (addName name o) (addName name o') := by
  intro b b' u c related run
  obtain ⟨log, -, known⟩ := addName_run name o b
  obtain ⟨log', -, run'⟩ := addName_run name o' b'
  obtain rfl := (Prod.mk.inj (run.symm.trans known)).2
  obtain ⟨format, format', size, interned⟩ := related.writer
  exact ⟨_, _, run', trivial, ⟨format, format', size, interned⟩, related.index.add name alike⟩

section

variable (wide : f.Widens f')

include wide

theorem widens_declare (module : UInt16) (d : Declaration) :
    Widens f f' (fun _ _ => True) (declare module d) (declare module d) :=
  (widens_write (d.widens_write wide module)).bind fun _ _ record =>
    (widens_addName _ record).bind fun _ _ _ =>
    (widens_write (widens_note _ _)).bind fun _ _ _ => follows_pure trivial

theorem widens_writeIndex : Widens f f' (List.Forall₂ (Stretch f f')) writeIndex writeIndex :=
  follows_get.bind fun _ _ related => widens_write (NameIndex.widens_write wide related.index)

end

end Build

/-! ## Module tables -/

/-- The tables have the same names in the same places, at counterparts. -/
structure ModuleNames.Widens (f f' : Format) (table table' : ModuleNames) : Prop where
  names : List.Forall₂ (Stretch f f') table.names.toList table'.names.toList
  places : table'.places = table.places

theorem ModuleNames.Widens.push {table table' : ModuleNames} (h : table.Widens f f' table')
    (places : Std.HashMap String Nat) {o o' : Offset} (alike : Stretch f f' o o') :
    Widens f f' ⟨table.names.push o, places⟩ ⟨table'.names.push o', places⟩ where
  names := by
    rw [Array.toList_push, Array.toList_push]
    exact List.rel_append h.names (.cons alike .nil)
  places := rfl

section

variable (wide : f.Widens f') {table table' : ModuleNames}

include wide

theorem ModuleNames.Widens.add (h : table.Widens f f' table') (m : Module) :
    Write.Widens f f' (Widens f f') (table.add m) (table'.add m) := by
  have size := h.names.length_eq
  rw [Array.length_toList, Array.length_toList] at size
  unfold ModuleNames.add
  dsimp only
  rw [h.places, ← size]
  split_ifs
  · exact follows_pure h
  · exact follows_throw.bind fun _ _ (_ : True) =>
      (widens_text wide _).bind fun _ _ start => follows_pure (h.push _ start)
  · exact (widens_text wide _).bind fun _ _ start => follows_pure (h.push _ start)

theorem ModuleNames.widens_write (forest : Forest) :
    Write.Widens f f' (Widens f f') (write forest) (write forest) :=
  Follows.foldlM (fun _ _ m h => h.add wide m) ⟨.nil, rfl⟩ _

theorem widens_declareModule (forest : Forest) (h : table.Widens f f' table') (m : Module) :
    Build.Widens f f' (fun _ _ => True) (declareModule forest table m)
      (declareModule forest table' m) := by
  unfold declareModule ModuleNames.place?
  rw [h.places]
  cases table.places[m.topLevel]?.map UInt16.ofNat with
  | none => exact follows_throw
  | some place =>
    refine Follows.forM_self (fun id => ?_) _
    cases forest.get? id with
    | none => exact follows_throw
    | some d => exact (Build.widens_declare wide place d).bind fun _ _ _ => follows_pure trivial

end

/-! ## Parts -/

/-- The parts hold the same, at counterparts. -/
structure Parts.Widens (f f' : Format) (parts parts' : Parts) : Prop where
  format : parts.format = f
  format' : parts'.format = f'
  heap : Stretch f f' parts.heap.size parts'.heap.size
  modules : List.Forall₂ (Stretch f f') parts.modules parts'.modules
  slots : List.Forall₂ (Stretch f f') parts.slots parts'.slots
  declarations : parts'.declarations = parts.declarations

section

variable (wide : f.Widens f')

include wide

theorem widens_buildParts (forest : Forest) :
    Build.Widens f f' (Parts.Widens f f') (buildParts forest) (buildParts forest) := by
  unfold buildParts
  refine (Build.widens_write (ModuleNames.widens_write wide forest)).bind ?_
  intro _ _ table
  refine (Follows.forM_self (widens_declareModule wide forest table) _).bind ?_
  intro _ _ _
  refine (Build.widens_writeIndex wide).bind ?_
  intro _ _ slots
  refine follows_get.bind ?_
  intro _ _ related
  exact follows_pure ⟨related.writer.format, related.writer.format', related.writer.size, table.names,
    slots, related.index.size⟩

/-- **A build that succeeds** does so with wider pointers too. -/
theorem Forest.widens_build {forest : Forest} {parts : Parts} {log : Log}
    (build : forest.build f.toWidths = (.ok parts, log)) :
    ∃ parts' log', forest.build f'.toWidths = (.ok parts', log') ∧ parts.Widens f f' parts' := by
  have fresh (f : Format) : Writer.empty f.toWidths = .ok { format := f } := by
    rw [Writer.empty, Format.check_toWidths]
    rfl
  have start : Builder.Widens f f'
      ⟨{ format := f }, .emptyFor forest.storable.length⟩
      ⟨{ format := f' }, .emptyFor forest.storable.length⟩ :=
    ⟨wide.widens_start, NameIndex.widens_empty _⟩
  unfold Forest.build at build ⊢
  rw [fresh] at build ⊢
  dsimp only at build ⊢
  rcases run : (buildParts forest).run.run ⟨{ format := f }, .emptyFor forest.storable.length⟩
    with ⟨result, b⟩
  rw [run] at build
  obtain ⟨rfl, rfl⟩ := Prod.mk.inj build
  obtain ⟨parts', b', run', alike, -⟩ := widens_buildParts wide forest start run
  refine ⟨parts', b'.writer.log, ?_, alike⟩
  rw [show (buildParts forest).run.run _ = _ from run']

/-! ## Layout -/

theorem stretch_section {offsets offsets' : List Offset}
    (alike : List.Forall₂ (Stretch f f') offsets offsets') :
    Stretch f f' (sectionRun f offsets).length (sectionRun f' offsets').length := by
  unfold sectionRun
  rw [List.length_append, List.length_append, LittleEndian.length_encode, LittleEndian.length_encode,
    wide.countWidth_eq, Image.length_pointerRun, Image.length_pointerRun, ← alike.length_eq]
  exact (wide.stretch_self _).add (wide.stretch_pointers _)

theorem SectionFits.widens {offsets offsets' : List Offset} (fit : SectionFits f offsets)
    (alike : List.Forall₂ (Stretch f f') offsets offsets') : SectionFits f' offsets' where
  count := by
    rw [wide.largestCount_eq, ← alike.length_eq]
    exact fit.count
  pointers := fits_of_stretch wide alike fit.pointers

variable {parts parts' : Parts}

/-- The parts of a wider container are at counterparts, in the order in which they are laid out. -/
theorem Parts.Widens.header (h : parts.Widens f f' parts') :
    Stretch f f' parts.header.moduleTable parts'.header.moduleTable ∧
      Stretch f f' parts.header.globalTable parts'.header.globalTable ∧
      Stretch f f' parts.header.heap parts'.header.heap := by
  obtain ⟨rfl, rfl, -, modules, slots, -⟩ := h
  have front : Stretch parts.format parts'.format (Header.size parts.format.toWidths)
      (Header.size parts'.format.toWidths) :=
    (wide.stretch_self 2).add (wide.stretch_pointers 3)
  have globals := front.add (stretch_section wide modules)
  exact ⟨front, globals, globals.add (stretch_section wide slots)⟩

theorem Parts.Widens.length (h : parts.Widens f f' parts') :
    Stretch f f' parts.bytes.length parts'.bytes.length := by
  rw [parts.length_bytes, parts'.length_bytes]
  exact (h.header wide).2.2.add h.heap

/-- **What fits its field** does so in the wider container too. -/
theorem Parts.Widens.fit (h : parts.Widens f f' parts') (fit : parts.Fit) : parts'.Fit := by
  obtain ⟨moduleTable, globalTable, heap⟩ := h.header wide
  obtain ⟨rfl, rfl, -, modules, slots, -⟩ := h
  have places : List.Forall₂ (Stretch parts.format parts'.format) parts.places parts'.places :=
    .cons moduleTable (.cons globalTable (.cons heap .nil))
  exact ⟨fit.modules.widens wide modules, fit.slots.widens wide slots,
    fits_of_stretch wide places fit.places⟩

end

/-! ## Answers -/

/-- Two answers to one question that differ in nothing but where the record is. -/
inductive SameAnswer : Except Error (Option StoredDeclaration) →
    Except Error (Option StoredDeclaration) → Prop where
  /-- Nothing has the name. -/
  | missing : SameAnswer (.ok none) (.ok none)
  /-- The record that has the name cannot be read. -/
  | unreadable {cause cause' : Error} (here : ∀ fault, cause ≠ .fault fault)
      (there : ∀ fault, cause' ≠ .fault fault) : SameAnswer (.error cause) (.error cause')
  /-- The declarations agree in all but their offset. -/
  | found (s : StoredDeclaration) (offset : Offset) :
      SameAnswer (.ok (some s)) (.ok (some { s with offset }))

/-- What a record shows of a declaration does not depend on where the record is. -/
theorem SameAnswer.of_stored {x x' : Except Error StoredDeclaration} {d : Declaration}
    {record record' : Offset} {place : UInt16} {topLevel : String} (safe : Faultless x)
    (safe' : Faultless x') (shown : x.toOption = d.stored? record place topLevel)
    (shown' : x'.toOption = d.stored? record' place topLevel) :
    SameAnswer (x >>= fun s => return some s) (x' >>= fun s => return some s) := by
  unfold Declaration.stored? at shown shown'
  cases stored : d.body.stored? place with
  | none =>
    rw [stored] at shown shown'
    cases x with
    | ok _ => cases shown
    | error cause =>
      cases x' with
      | ok _ => cases shown'
      | error cause' =>
        exact .unreadable (fun fault h => safe fault (h ▸ rfl)) fun fault h => safe' fault (h ▸ rfl)
  | some body =>
    rw [stored] at shown shown'
    rw [Except.toOption_eq_some.1 shown, Except.toOption_eq_some.1 shown']
    exact .found _ record'

theorem Forest.Built.module_shown {forest : Forest} {parts : Parts} {builder : Builder}
    {entries : List Written} (built : forest.Built parts builder entries) {e : Written}
    (he : e ∈ entries) : ∃ topLevel, ∀ parts : Parts,
      (parts.opened (forest.topLevelNames.map Utf8.upToNul)).modules[e.place.toNat]? =
        some topLevel := by
  obtain ⟨listed, -, name, -⟩ := exists_right_of_forall₂ built.listed.flip he
  refine ⟨Utf8.upToNul listed.1.topLevel, fun _ => ?_⟩
  rw [Parts.opened, List.getElem?_toArray, List.getElem?_map, name]
  rfl

/-- The same declaration was written, with the same place for its module. -/
def Written.Alike (e e' : Written) : Prop :=
  e'.declaration = e.declaration ∧ e'.place = e.place

section

variable {forest : Forest} {parts parts' : Parts} {builder builder' : Builder}
  {entries entries' : List Written} (built : forest.Built parts builder entries)
  (built' : forest.Built parts' builder' entries')

include built built'

/-- Any two builds of a forest write the same declarations in the same order. -/
theorem Forest.Built.alike : List.Forall₂ Written.Alike entries entries' := by
  have unique : forest.topLevelNames.Nodup := nodup_eraseDups _
  refine forall₂_join (fun listed e e' h h' => ?_) built.listed built'.listed
  refine ⟨Option.some.inj (h'.2.symm.trans h.2), UInt16.toNat_inj.1 ?_⟩
  -- each name has one place, so the module that lists a declaration determines it
  have lt := (List.getElem?_eq_some_iff.1 h'.1).1
  exact (List.getElem?_inj lt unique).1 (h'.1.trans h.1.symm)

variable (inside : builder.writer.In parts.image) (inside' : builder'.writer.In parts'.image)

include inside inside'

/-- A record in the container of the one build is read as its counterpart in the other. -/
theorem Forest.Built.sameDeclaration {e e' : Written} (he : e ∈ entries) (he' : e' ∈ entries')
    (alike : e.Alike e') :
    SameAnswer
      ((parts.opened (forest.topLevelNames.map Utf8.upToNul)).declaration e.record >>=
        fun s => return some s)
      ((parts'.opened (forest.topLevelNames.map Utf8.upToNul)).declaration e'.record >>=
        fun s => return some s) := by
  obtain ⟨topLevel, module⟩ := built.module_shown he
  have shown := Container.declaration_shows built.tracks he inside (module parts)
  have shown' := Container.declaration_shows built'.tracks he' inside' (alike.2 ▸ module parts')
  rw [alike.1, alike.2] at shown'
  exact .of_stored (Container.declaration_safe inside.fits e.record)
    (Container.declaration_safe inside'.fits e'.record) shown shown'

/-- A name leads to the same declaration in the containers of two builds with as many buckets. -/
theorem Forest.Built.sameAnswer (capacity : builder'.index.capacity = builder.index.capacity)
    (name : String) :
    SameAnswer ((parts.opened (forest.topLevelNames.map Utf8.upToNul)).find name)
      ((parts'.opened (forest.topLevelNames.map Utf8.upToNul)).find name) := by
  have first := find?_forall₂ (fun e e' (alike : Written.Alike e e') => congrArg
    (fun d : Declaration => decide (Meets builder.index.capacity name d.info.publicName)) alike.1)
    (built.alike built')
  rw [Container.find, Container.find, built.lookup_meets inside, built'.lookup_meets inside', capacity,
    Except.ok_bind, Except.ok_bind]
  cases here : entries.find? fun e =>
    Meets builder.index.capacity name e.declaration.info.publicName with
  | none =>
    cases there : entries'.find? fun e =>
      Meets builder.index.capacity name e.declaration.info.publicName with
    | none => exact .missing
    | some e' =>
      rw [here, there] at first
      cases first
  | some e =>
    cases there : entries'.find? fun e =>
      Meets builder.index.capacity name e.declaration.info.publicName with
    | none =>
      rw [here, there] at first
      cases first
    | some e' =>
      rw [here, there] at first
      cases first with
      | some alike =>
        exact built.sameDeclaration built' inside inside' (List.mem_of_find?_eq_some here)
          (List.mem_of_find?_eq_some there) alike

end

/-! ## Saved containers -/

/-- **Wider pointers break no save and change no content.** A forest that is saved with some width of
pointers is saved with any larger one, to a container with as many modules, declarations and buckets that
grows at most as the pointers do, and every name leads to the same answer in both. The bytes are in one
block of memory, as all bytes are. -/
theorem wider_pointers {forest : Forest} {pointer pointer' count : UInt8} {b : Array UInt8}
    (wider : pointer ≤ pointer') (most : pointer' ≤ 8)
    (saved : forest.toBytes ⟨pointer, count⟩ = .ok b) :
    ∃ b' s s', forest.toBytes ⟨pointer', count⟩ = .ok b' ∧
      (b.size ≤ b'.size ∧ b'.size * pointer.toNat ≤ b.size * pointer'.toNat) ∧
      (forest.save ⟨pointer, count⟩ .empty).result = .ok s ∧
      (forest.save ⟨pointer', count⟩ .empty).result = .ok s' ∧
      (s'.modules = s.modules ∧ s'.declarations = s.declarations ∧ s'.buckets = s.buckets) ∧
      (b'.size ≤ Heap.largestBlock → ∃ c c', Container.parse b = .ok c ∧
        Container.parse b' = .ok c' ∧ ∀ name, SameAnswer (c.find name) (c'.find name)) := by
  obtain ⟨parts, log, build, fit, same⟩ := Forest.toBytes_eq_ok.1 saved
  have valid : Widths.Valid ⟨pointer, count⟩ := by
    obtain ⟨-, -, -, format, -⟩ := Forest.build_returns build
    exact format ▸ parts.format.valid
  have le : pointer.toNat ≤ pointer'.toNat := UInt8.le_iff_toNat_le.1 wider
  have valid' : Widths.Valid ⟨pointer', count⟩ :=
    ⟨⟨valid.1.1.trans le, UInt8.le_iff_toNat_le.1 most⟩, valid.2⟩
  have wide : Format.Widens ⟨⟨pointer, count⟩, valid⟩ ⟨⟨pointer', count⟩, valid'⟩ := ⟨le, rfl⟩
  obtain ⟨parts', log', build', alike⟩ := Forest.widens_build wide build
  have fit' := alike.fit wide fit
  have length := alike.length wide
  rw [← same, Array.length_toList] at length
  have same' : parts'.bytes.toArray.toList = parts'.bytes := rfl
  refine ⟨parts'.bytes.toArray, parts.summary, parts'.summary,
    Forest.toBytes_eq_ok.2 ⟨parts', log', build', fit', same'⟩, ⟨length.le, length.ratio⟩,
    Forest.save_empty build fit, Forest.save_empty build' fit',
    ⟨alike.modules.length_eq.symm, alike.declarations, alike.slots.length_eq.symm⟩, fun fits' => ?_⟩
  obtain ⟨builder, entries, built, -, -, inside, parse⟩ :=
    Forest.open_build build fit same (length.le.trans fits')
  obtain ⟨builder', entries', built', -, -, inside', parse'⟩ :=
    Forest.open_build build' fit' same' fits'
  -- there is one slot for each bucket
  have capacity : builder'.index.capacity = builder.index.capacity := by
    have slots := alike.slots.length_eq
    rw [← built.slots.length_eq, ← built'.slots.length_eq] at slots
    exact slots.symm
  exact ⟨_, _, parse, parse', built.sameAnswer built' inside inside' capacity⟩

namespace Views

/-- The container of the class and the variable, once it is opened. -/
def opened : Container where
  header := ⟨⟨1, 8⟩, 5, 14, 25⟩
  heap := ⟨(0 :: (viewBytes ++ sharedBytes)).toArray, format⟩
  modules := #["UI"]
  slots := #[130, 0, 0]

set_option maxRecDepth 1000 in
theorem parse_bytes : Container.parse bytes = .ok opened := by
  obtain ⟨_, _, -, -, -, -, parse⟩ := Forest.open_build build_parts fit toList_bytes fits
  have names : (forest "View").topLevelNames.map Utf8.upToNul = ["UI"] := by decide
  rw [parse, names]
  rfl

/-- What is stored of a method of the class. -/
def storedMethod (name : String) : StoredMethod :=
  ⟨⟨name, name, 0, 0, .unknown⟩, [.named .interface "View"], none⟩

/-- What is stored of the class. -/
def storedView : StoredDeclaration where
  offset := 109
  base := ⟨"View", "UIView", 134, 0, .unknown⟩
  module := "UI"
  body := .interface (some "Object")
    { instanceMethods := [storedMethod "init"]
      staticMethods := []
      properties := [⟨⟨"root", "root", 4, 0, .unknown⟩, some (storedMethod "root"), none⟩]
      protocols := ["Touch"]
      firstInitializer := 0 }

set_option maxRecDepth 4000 in
theorem find_view : opened.find "View" = .ok (some storedView) := rfl

set_option maxRecDepth 4000 in
theorem find_uiView : opened.find "UIView" = .ok none := rfl

end Views

/-- The class and the variable are saved with pointers of eight bytes too, and `View` leads to the class,
with all of its members. Its own name leads to nothing in both containers. -/
theorem wider_pointers_views : ∃ b' c' offset, (Views.forest "View").toBytes ⟨8, 8⟩ = .ok b' ∧
    Container.parse Views.bytes = .ok Views.opened ∧ Container.parse b' = .ok c' ∧
    Views.opened.find "View" = .ok (some Views.storedView) ∧
    c'.find "View" = .ok (some { Views.storedView with offset }) ∧
    Views.opened.find "UIView" = .ok none ∧ c'.find "UIView" = .ok none := by
  obtain ⟨b', _, _, saved, ⟨-, length⟩, -, -, -, answers⟩ :=
    wider_pointers (show (1 : UInt8) ≤ 8 by decide) (by decide) Views.toBytes_eq
  have fits : b'.size ≤ Heap.largestBlock := by
    rw [Views.size_bytes] at length
    have size : b'.size * 1 ≤ 165 * 8 := length
    unfold Heap.largestBlock
    omega
  obtain ⟨c, c', parse, parse', same⟩ := answers fits
  obtain rfl : c = Views.opened := Except.ok.inj (parse.symm.trans Views.parse_bytes)
  have found := same "View"
  have absent := same "UIView"
  rw [Views.find_view] at found
  rw [Views.find_uiView] at absent
  generalize answer : c'.find "View" = found' at found
  generalize answer' : c'.find "UIView" = absent' at absent
  cases found with
  | found _ offset =>
    cases absent
    exact ⟨b', c', offset, saved, parse, parse', Views.find_view, answer, Views.find_uiView, answer'⟩

end DeclArchive
