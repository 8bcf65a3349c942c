import DeclArchive.Proofs.Container.Build
import DeclArchive.Proofs.Container.Load
import Mathlib.Data.List.Find

/-!
# Containers are read back

A container that was saved opens, and what the build left is found in it (`Forest.open_returns`). So
every listed declaration has a record of its own, which is read as the declaration, and no other record
is registered (`container_round_trip`); and a lookup finds the record of the first declaration with the
name (`lookup_finds_first`).
-/

namespace DeclArchive

/-! ## Records of a build -/

/-- The record of each listed declaration, in the order in which they are listed: what the build
reports. -/
def Forest.records (forest : Forest) (widths : Widths) : List Offset := (forest.build widths).2.records

/-- Every text and type that is to be stored can be read back. -/
structure Forest.Plain (forest : Forest) : Prop where
  modules : ∀ m ∈ forest.modules, Utf8.NulFree m.name
  declarations : ∀ listed ∈ forest.listed, ∀ d ∈ listed.2, d.Plain

/-- A container that was laid out opens, and holds what the build left. -/
theorem Forest.open_build {forest : Forest} {widths : Widths} {parts : Parts} {log : Log}
    {b : Array UInt8} (build : forest.build widths = (.ok parts, log)) (fit : parts.Fit)
    (same : b.toList = parts.bytes) (fits : b.size ≤ Heap.largestBlock) :
    ∃ builder entries, forest.Built parts builder entries ∧ parts.format.toWidths = widths ∧
      forest.records widths = entries.map Written.record ∧
      builder.writer.In parts.image ∧
      Container.parse b = .ok (parts.opened (forest.topLevelNames.map Utf8.upToNul)) := by
  obtain ⟨builder, entries, built, format, records⟩ := Forest.build_returns build
  have inside : builder.writer.In parts.image := by
    refine ⟨built.format, built.heap ▸ List.prefix_rfl, ?_⟩
    refine Nat.le_trans ?_ fits
    rw [← Array.length_toList, same, parts.length_bytes]
    exact Nat.le_add_left _ _
  refine ⟨builder, entries, built, format, ?_, inside,
    Parts.parse_bytes fit same fits (inside.texts_eq built.modules)⟩
  rw [Forest.records, build, records]

/-- What was saved opens, and holds what the build left. -/
theorem Forest.open_returns {forest : Forest} {widths : Widths} {b : Array UInt8}
    (saved : forest.toBytes widths = .ok b) (fits : b.size ≤ Heap.largestBlock) :
    ∃ parts builder entries, forest.Built parts builder entries ∧ parts.format.toWidths = widths ∧
      forest.records widths = entries.map Written.record ∧
      builder.writer.In parts.image ∧
      Container.parse b = .ok (parts.opened (forest.topLevelNames.map Utf8.upToNul)) := by
  obtain ⟨parts, log, build, fit, same⟩ := Forest.toBytes_eq_ok.1 saved
  exact ⟨parts, Forest.open_build build fit same fits⟩

/-! ## Declarations -/

theorem Module.nulFree_topLevel {m : Module} (h : Utf8.NulFree m.name) : Utf8.NulFree m.topLevel := by
  unfold Utf8.NulFree Module.topLevel at *
  rw [String.toList_ofList]
  exact fun mem => h ((List.takeWhile_prefix _).subset mem)

theorem Forest.Plain.topLevelNames {forest : Forest} (plain : forest.Plain) :
    forest.topLevelNames.map Utf8.upToNul = forest.topLevelNames := by
  refine map_upToNul fun s hs => ?_
  obtain ⟨m, hm, rfl⟩ := List.mem_map.1 (List.mem_eraseDups.1 hs)
  exact Module.nulFree_topLevel (plain.modules m (Array.mem_toList_iff.1 hm))

/-- What is read from the record of a declaration, if it can be read. -/
def Declaration.stored? (d : Declaration) (record : Offset) (place : UInt16) (topLevel : String) :
    Option StoredDeclaration :=
  return ⟨record, d.info.stored d.flagByte place, topLevel, ← d.body.stored? place⟩

section

variable {c : Container} {builder : Builder} {entries : List Written} {e : Written}
  {topLevel : String} (tracks : builder.Tracks entries) (he : e ∈ entries)
  (inside : builder.writer.In c.heap) (module : c.modules[e.place.toNat]? = some topLevel)

include tracks he inside module

/-- A record shows what is stored of the declaration, in a container that holds what was left. -/
theorem Container.declaration_shows :
    (c.declaration e.record).toOption = e.declaration.stored? e.record e.place topLevel := by
  obtain ⟨w, w', sound, run, within⟩ := tracks.written e he
  obtain ⟨past, base, body⟩ := Declaration.write_shows sound run (within inside)
  rw [Container.declaration, base, Except.ok_bind]
  dsimp only [Info.stored]
  rw [module]
  dsimp only
  rw [e.declaration.ofByte_flagByte.2, Except.toOption_bind, body]
  rfl

/-- A record is read as the declaration that was written, if all of that can be read back. -/
theorem Container.declaration_reads (plain : e.declaration.Plain) :
    ∃ s, c.declaration e.record = .ok s ∧ s.Mirrors e.record e.place topLevel e.declaration := by
  obtain ⟨w, w', sound, run, within⟩ := tracks.written e he
  obtain ⟨body, stored, mirrors⟩ := e.declaration.mirrors_stored run plain
  have shown := Container.declaration_shows tracks he inside module
  rw [Declaration.stored?, stored] at shown
  refine ⟨_, Except.toOption_eq_some.1 shown, rfl, rfl, ?_, e.declaration.ofByte_flagByte.1, mirrors⟩
  exact Info.mirrors_stored (fun s hs => plain.texts s (List.mem_append_left _ hs)) _ _

end

/-- **A saved container is read back.** It has the widths it was saved with and lists the top-level
names, each once. Its records are those of the listed declarations, each once and no others, and each
is read as the declaration, in the module that lists it. The bytes are in one block of memory, as all
bytes are. -/
theorem container_round_trip {forest : Forest} {widths : Widths} {b : Array UInt8}
    (plain : forest.Plain) (saved : forest.toBytes widths = .ok b)
    (fits : b.size ≤ Heap.largestBlock) :
    ∃ c os, Container.parse b = .ok c ∧ c.header.widths = widths ∧
      c.modules.toList = forest.topLevelNames ∧ c.records = .ok os ∧
      os.Perm (forest.records widths) ∧ os.Nodup ∧
      List.Forall₂ (fun listed record => ∃ d place s, listed.2 = some d ∧
        c.modules[UInt16.toNat place]? = some listed.1.topLevel ∧ c.declaration record = .ok s ∧
        s.Mirrors record place listed.1.topLevel d) forest.listed (forest.records widths) := by
  obtain ⟨parts, builder, entries, built, format, records, inside, parse⟩ :=
    Forest.open_returns saved fits
  rw [plain.topLevelNames] at parse
  have slots := built.slots.imp fun _ _ h => h _ inside
  obtain ⟨os, read, perm⟩ := Container.records_eq (c := parts.opened forest.topLevelNames)
    built.tracks.index slots
  have perm' : os.Perm (forest.records widths) := by
    rw [List.map_map] at perm
    rwa [records]
  refine ⟨_, os, parse, format, rfl, read, perm', ?_, ?_⟩
  · rw [perm'.nodup_iff, records]
    exact built.tracks.ordered.imp Nat.ne_of_lt
  · rw [records, List.forall₂_map_right_iff]
    refine (forall₂_mem built.listed).imp fun listed e h => ?_
    obtain ⟨hl, he, name, found⟩ := h
    have module : (parts.opened forest.topLevelNames).modules[e.place.toNat]? =
        some listed.1.topLevel := by
      rw [← name]
      exact List.getElem?_toArray
    obtain ⟨s, declaration, mirrors⟩ := Container.declaration_reads built.tracks he inside module
      (plain.declarations listed hl e.declaration found)
    exact ⟨e.declaration, e.place, s, found, module, declaration, mirrors⟩

/-! ### One declaration -/

namespace Sample

open Write

/-- One byte for offsets and one for counts. -/
def format : Format := ⟨⟨1, 1⟩, by decide⟩

/-- A piece of code with this name. -/
def code (name : String) : Declaration := { info := { name }, body := .code "1" }

/-- A module `M` that lists one declaration, with this name. -/
def listing (name : String) : Forest :=
  { declarations := ⟨#[code name]⟩, modules := #[⟨"M", #[0]⟩] }

/-- The writer after the names of the modules. -/
def modules : Writer := ({ format } : Writer).intern "M"

section

variable (name : String)

/-- The writer after the texts of the declaration. -/
def texts : Writer := (modules.intern name).intern "1"

/-- Where the record is. -/
def record : Offset := (texts name).heap.next

/-- The writer after the record, which the log reports. -/
def written : Writer :=
  { (texts name).append [3, 4, 0, 0, 0, UInt8.ofNat (modules.intern name).heap.next] with
    log := #[.recordWritten .jsCode name (record name)] }

def index : NameIndex := (NameIndex.emptyFor 1).add name (record name)

end

def table : ModuleNames := ⟨#[1], ({} : Std.HashMap String Nat).insert "M" 0⟩

theorem topLevel (ids : Array DeclId) : Module.topLevel ⟨"M", ids⟩ = "M" := by
  show String.ofList ("M".toList.takeWhile (· ≠ '.')) = "M"
  decide

theorem place_topLevel (ids : Array DeclId) : table.place? (Module.topLevel ⟨"M", ids⟩) = some 0 := by
  rw [topLevel]
  simp [ModuleNames.place?, table]

/-- The names of a forest that has no module but `M`. -/
theorem returns_names {forest : Forest} {ids : Array DeclId}
    (only : forest.modules = #[⟨"M", ids⟩]) (f : Format) :
    Returns (ModuleNames.write forest) { format := f } table
      (({ format := f } : Writer).intern "M") := by
  unfold ModuleNames.write
  rw [only]
  show Returns (([⟨"M", ids⟩] : List Module).foldlM ModuleNames.add {}) _ _ _
  have new : (({} : ModuleNames).places.contains "M") = false := Std.HashMap.contains_empty
  rw [List.foldlM_cons]
  refine returns_bind.2 ⟨_, _, ?_, returns_pure.2 ⟨rfl, rfl⟩⟩
  unfold ModuleNames.add
  rw [topLevel]
  simp only [new]
  exact returns_bind.2 ⟨_, _, returns_text_new Std.HashMap.getElem?_empty, returns_pure.2 ⟨rfl, rfl⟩⟩

section

variable {name : String} (other : "M" ≠ name) (other' : name ≠ "1")
  (small : (modules.intern name).heap.next ≤ 255)

include other other' small

theorem returns_record :
    Returns ((code name).write 0) modules (record name) { written name with log := #[] } := by
  have one : ({ name } : Info).hasDistinctName = false := bne_self_eq_false name
  unfold Declaration.write code
  dsimp only
  unfold Info.writeNames FlagByte.ofDeclaration FlagByte.common
  rw [one]
  refine returns_bind.2 ⟨_, _, returns_text_new (s := name) ?_, ?_⟩
  · simp [modules, Writer.intern, other]
  refine returns_bind.2 ⟨_, _, returns_text_new (s := "1") ?_, ?_⟩
  · simp [modules, Writer.intern, other']
  simp only [Info.writeBase, returns_bind, returns_pointer, returns_byte, returns_uint16,
    returns_pure]
  refine ⟨_, _, ⟨_, _, ⟨?_, rfl, rfl⟩, _, _, ⟨rfl, rfl⟩, _, _, ⟨rfl, rfl⟩, _, _, ⟨rfl, rfl⟩, rfl,
    rfl⟩, _, _, ⟨?_, rfl, rfl⟩, rfl, ?_⟩
  · show 3 ≤ 255
    decide
  · exact small
  · simp only [Writer.append_append]
    rfl

theorem returns_declare :
    Returns (Build.declare 0 (code name)) ⟨modules, .emptyFor 1⟩ (record name)
      ⟨written name, index name⟩ := by
  have new : (NameIndex.emptyFor 1).contains name = false := by
    unfold NameIndex.contains NameIndex.emptyFor
    rw [(NameIndex.holds_empty _).chain_eq]
    rfl
  exact Build.returns_declare (returns_record other other' small) (Build.returns_addName_new new _) rfl

theorem returns_module : Returns (declareModule (listing name) table ⟨"M", #[0]⟩)
    ⟨modules, .emptyFor 1⟩ ⟨⟩ ⟨written name, index name⟩ := by
  unfold declareModule
  rw [place_topLevel]
  exact returns_forM_cons.2 ⟨⟨⟩, _, returns_bind.2 ⟨_, _, returns_declare other other' small,
    returns_pure.2 ⟨rfl, rfl⟩⟩, returns_forM_nil.2 rfl⟩

/-- The build of the sample, up to the index, whose slots depend on the name. -/
theorem build_listing {slots : List Offset} {last : Writer} (same : last.format = format)
    (run : Returns (index name).write (written name) slots last) :
    (listing name).build ⟨1, 1⟩ = (.ok ⟨format, last.heap, [1], slots, 1⟩, last.log) := by
  have run : Returns (buildParts (listing name)) ⟨{ format }, .emptyFor 1⟩
      ⟨format, last.heap, [1], slots, 1⟩ ⟨last, index name⟩ := by
    refine returns_bind.2 ⟨_, ⟨_, _⟩, Build.returns_write.2 ⟨returns_names rfl format, rfl⟩, ?_⟩
    refine returns_bind.2 ⟨⟨⟩, _, returns_forM_cons.2 ⟨⟨⟩, _,
      returns_module other other' small, returns_forM_nil.2 rfl⟩, ?_⟩
    have slots : Returns Build.writeIndex ⟨written name, index name⟩ slots ⟨last, index name⟩ :=
      returns_bind.2 ⟨_, _, returns_get.2 ⟨rfl, rfl⟩, Build.returns_write.2 ⟨run, rfl⟩⟩
    exact returns_bind.2 ⟨_, _, slots, returns_bind.2 ⟨_, _, returns_get.2 ⟨rfl, rfl⟩,
      returns_pure.2 ⟨by rw [same]; rfl, rfl⟩⟩⟩
  show (((buildParts (listing name)).run.run ⟨{ format }, .emptyFor 1⟩).1,
    ((buildParts (listing name)).run.run ⟨{ format }, .emptyFor 1⟩).2.writer.log) = _
  rw [run]

end

/-- A piece of code named `f`. -/
def declaration : Declaration := { info := { name := "f" }, body := .code "1" }

/-- A module `M` that lists one declaration. -/
def forest : Forest := { declarations := ⟨#[declaration]⟩, modules := #[⟨"M", #[0]⟩] }

/-- Its container: a header of five bytes, the module table, the slots of two buckets and the heap. -/
def bytes : Array UInt8 :=
  #[1, 1, 5, 7, 10, 1, 1, 2, 0, 13, 0, 77, 0, 102, 0, 49, 0, 3, 4, 0, 0, 0, 5, 1, 7]

/-- The writer after the index. -/
def last : Writer :=
  { (written "f").append [1, 7] with log := (written "f").log.push (index "f").summary }

theorem build_eq : forest.build ⟨1, 1⟩ = (.ok ⟨format, last.heap, [1], [0, 13], 1⟩, last.log) := by
  have run : Returns (index "f").write (written "f") [0, 13] last := by
    unfold Returns
    rfl
  exact build_listing (by decide) (by decide) (by decide) rfl run

theorem toBytes_eq : forest.toBytes ⟨1, 1⟩ = .ok bytes := by
  unfold Forest.toBytes Forest.save
  rw [build_eq]
  rfl

end Sample

/-! ### A class and a variable -/

namespace Views

open Write

/-- The initializer of a view. -/
def initializer : Method := ⟨{ name := "init" }, {}, [.named .interface "View"], ""⟩

/-- The view around a view, which can be read. -/
def parent : Property where
  info := { name := "root" }
  getter? := some ⟨{ name := "root" }, {}, [.named .interface "View"], ""⟩

/-- The class `UIView`, shown as `View`. -/
def view : Declaration where
  info := { name := "UIView", alias? := some "View" }
  body := .interface (some "Object")
    { instanceMethods := [initializer], properties := [parent], protocols := ["Touch"] }

/-- A variable that is shown as `View` too, and points to a struct. -/
def shared (target : String) : Declaration where
  info := { name := "View" }
  body := .global (.indirect .pointer (.named .struct target))

/-- Two modules of `UI`, which list a declaration each. -/
def forest (target : String) : Forest where
  declarations := ⟨#[view, shared target]⟩
  modules := #[⟨"UI.View", #[0]⟩, ⟨"UI.Shared", #[1]⟩]

theorem listed_eq {target : String} : (forest target).listed =
    [(⟨"UI.View", #[0]⟩, some view), (⟨"UI.Shared", #[1]⟩, some (shared target))] := rfl

theorem eq_of_listed {target : String} {listed : Module × Option Declaration} {d : Declaration}
    (h : listed ∈ (forest target).listed) (hd : d ∈ listed.2) : d = view ∨ d = shared target := by
  rw [listed_eq] at h
  obtain rfl | h := List.mem_cons.1 h
  · exact .inl (Option.some.inj hd).symm
  · obtain rfl := List.mem_singleton.1 h
    exact .inr (Option.some.inj hd).symm

theorem plain {target : String} (free : Utf8.NulFree target) : (forest target).Plain where
  modules := by
    show ∀ m ∈ #[⟨"UI.View", #[0]⟩, ⟨"UI.Shared", #[1]⟩], Utf8.NulFree (Module.name m)
    decide
  declarations listed h d hd := by
    obtain rfl | rfl := eq_of_listed h hd
    · exact ⟨by decide, by decide⟩
    · refine ⟨fun s hs => ?_, fun t ht => ?_⟩
      · have texts : (shared target).texts = ["View", "View", target] := rfl
        obtain rfl | rfl : s = "View" ∨ s = target := by simpa [texts] using hs
        · decide
        · exact free
      · obtain rfl := List.mem_singleton.1 ht
        show 2 ≤ deepestType
        decide

theorem valid_widths : Widths.Valid ⟨1, 8⟩ := by decide

/-- One byte for offsets and eight for counts. -/
def format : Format := ⟨⟨1, 8⟩, valid_widths⟩

/-- What is written up to the record of the class. -/
def viewBytes : List UInt8 :=
  [85, 73, 0, 86, 105, 101, 119, 0, 85, 73, 86, 105, 101, 119, 0, 4, 9, 105, 110, 105, 116, 0,
    1, 0, 0, 0, 0, 0, 0, 0, 16, 4, 18, 0, 0, 0, 0, 23, 0, 114, 111, 111, 116, 0,
    1, 0, 0, 0, 0, 0, 0, 0, 16, 4, 40, 0, 0, 0, 0, 45, 0, 40, 4, 0, 0, 0, 55, 0,
    84, 111, 117, 99, 104, 0, 1, 0, 0, 0, 0, 0, 0, 0, 33, 1, 0, 0, 0, 0, 0, 0, 0, 62,
    1, 0, 0, 0, 0, 0, 0, 0, 69, 79, 98, 106, 101, 99, 116, 0,
    16, 134, 0, 0, 0, 75, 0, 84, 93, 0, 0, 102]

/-- The writer on its way to that. -/
def partway (n : Nat) (texts : List (String × Offset)) : Writer :=
  .knowing format (Heap.empty.append (viewBytes.take n)) texts #[]

theorem returns_names : Returns view.info.writeNames (partway 3 [("UI", 1)]) 16
    (partway 17 [("UIView", 9), ("View", 4), ("UI", 1)]) :=
  .bind (returns_text_unknown rfl) (.bind (returns_text_unknown rfl) rfl)

theorem returns_initializer :
    Returns (initializer.write 0) (partway 17 [("UIView", 9), ("View", 4), ("UI", 1)]) 33
      (partway 39 [("init", 18), ("UIView", 9), ("View", 4), ("UI", 1)]) :=
  .bind (returns_text_unknown rfl)
    (.bind (.bind (.bind (.bind (returns_text_known rfl) rfl) rfl) rfl) rfl)

theorem returns_parent :
    Returns (parent.write 0) (partway 39 [("init", 18), ("UIView", 9), ("View", 4), ("UI", 1)]) 62
      (partway 68 [("root", 40), ("init", 18), ("UIView", 9), ("View", 4), ("UI", 1)]) :=
  .bind (returns_text_unknown rfl)
    (.bind (.bind (returns_text_known rfl)
      (.bind (.bind (.bind (.bind (returns_text_known rfl) rfl) rfl) rfl) rfl)) rfl)

theorem returns_members : Returns
    (Members.write 0
      { instanceMethods := [initializer], properties := [parent], protocols := ["Touch"] })
    (partway 17 [("UIView", 9), ("View", 4), ("UI", 1)]) ⟨75, 0, 84, 93, 0⟩
    (partway 101
      [("Touch", 69), ("root", 40), ("init", 18), ("UIView", 9), ("View", 4), ("UI", 1)]) := by
  unfold Members.write sortByPublicName sortNames
  simp only [List.mergeSort_nil, List.mergeSort_singleton]
  refine .bind (a := 0) rfl ?_
  refine .bind (returns_mapM_cons.2 ⟨_, _, returns_initializer, _, rfl, rfl⟩) ?_
  refine .bind (a := []) rfl ?_
  refine .bind (returns_mapM_cons.2 ⟨_, _, returns_parent, _, rfl, rfl⟩) ?_
  refine .bind (returns_mapM_cons.2 ⟨_, _, returns_text_unknown rfl, _, rfl, rfl⟩) ?_
  rfl

/-- The texts that are known after the class, and where they are. -/
def viewTexts : List (String × Offset) :=
  [("Object", 102), ("Touch", 69), ("root", 40), ("init", 18), ("UIView", 9), ("View", 4), ("UI", 1)]

theorem returns_view :
    Returns (view.write 0) (partway 3 [("UI", 1)]) 109 (partway 120 viewTexts) :=
  .bind returns_names (.bind returns_members (.bind (returns_text_unknown rfl) rfl))

/-- The writer after the class was registered. -/
def declared : Writer :=
  .knowing format (Heap.empty.append viewBytes) viewTexts #[.recordWritten .interface "View" 109]

/-- The index after the class was registered. -/
def index : NameIndex := (NameIndex.emptyFor 2).add "View" 109

def table : ModuleNames := ⟨#[1], ({} : Std.HashMap String Nat).insert "UI" 0⟩

theorem place_eq {m : Module} (name : m.topLevel = "UI") : table.place? m.topLevel = some 0 := by
  rw [name]
  simp [ModuleNames.place?, table]

section

variable (target : String)

theorem returns_table :
    Returns (ModuleNames.write (forest target)) { format } table (partway 3 [("UI", 1)]) := by
  have first : Returns (ModuleNames.add {} ⟨"UI.View", #[0]⟩) { format } table
      (partway 3 [("UI", 1)]) := by
    have new : (({} : ModuleNames).places.contains "UI") = false := Std.HashMap.contains_empty
    have name : Module.topLevel ⟨"UI.View", #[0]⟩ = "UI" := by decide
    unfold ModuleNames.add
    rw [name]
    simp only [new]
    exact .bind (returns_text_new Std.HashMap.getElem?_empty) rfl
  have second : Returns (ModuleNames.add table ⟨"UI.Shared", #[1]⟩) (partway 3 [("UI", 1)]) table
      (partway 3 [("UI", 1)]) := by
    have known : table.places.contains "UI" = true := Std.HashMap.contains_insert_self
    have name : Module.topLevel ⟨"UI.Shared", #[1]⟩ = "UI" := by decide
    unfold ModuleNames.add
    rw [name]
    simp only [known]
    rfl
  exact .bind first (.bind second rfl)

theorem returns_declareView : Returns (declareModule (forest target) table ⟨"UI.View", #[0]⟩)
    ⟨partway 3 [("UI", 1)], .emptyFor 2⟩ ⟨⟩ ⟨declared, index⟩ := by
  have new : (NameIndex.emptyFor 2).contains "View" = false := by decide
  have declare : Returns (Build.declare 0 view) ⟨partway 3 [("UI", 1)], .emptyFor 2⟩ 109
      ⟨declared, index⟩ :=
    Build.returns_declare returns_view (Build.returns_addName_new new 109) rfl
  unfold declareModule
  rw [place_eq (by decide)]
  exact returns_forM_cons.2 ⟨⟨⟩, _, .bind declare rfl, returns_forM_nil.2 rfl⟩

end

/-- The writer after the variable was registered too, under a name that is known. -/
def registered (w : Writer) (record : Offset) : Writer :=
  { w with log := (w.log.push (.duplicateName "View")).push (.recordWritten .var "View" record) }

section

variable {target : String} {record : Offset} {w last : Writer} {slots : List Offset}
  (written : Returns ((shared target).write 0) declared record w)

include written

theorem returns_declareShared :
    Returns (declareModule (forest target) table ⟨"UI.Shared", #[1]⟩) ⟨declared, index⟩ ⟨⟩
      ⟨registered w record, index.add "View" record⟩ := by
  have known : index.contains "View" = true := by decide
  have declare : Returns (Build.declare 0 (shared target)) ⟨declared, index⟩ record
      ⟨registered w record, index.add "View" record⟩ :=
    Build.returns_declare written (Build.returns_addName_again known record) rfl
  unfold declareModule
  rw [place_eq (by decide)]
  exact returns_forM_cons.2 ⟨⟨⟩, _, .bind declare rfl, returns_forM_nil.2 rfl⟩

variable (indexed : Returns (index.add "View" record).write (registered w record) slots last)
  (same : last.format = format)

include indexed same

/-- The build of the two modules. What the variable adds depends on whether its target is known. -/
theorem returns_build : Returns (buildParts (forest target)) ⟨{ format }, .emptyFor 2⟩
    ⟨format, last.heap, [1], slots, 2⟩ ⟨last, index.add "View" record⟩ := by
  have names : Returns (Build.write (ModuleNames.write (forest target)))
      ⟨{ format }, .emptyFor 2⟩ table ⟨partway 3 [("UI", 1)], .emptyFor 2⟩ :=
    Build.returns_write.2 ⟨returns_table target, rfl⟩
  have modules : Returns ((forest target).modules.toList.forM (declareModule (forest target) table))
      ⟨partway 3 [("UI", 1)], .emptyFor 2⟩ ⟨⟩ ⟨registered w record, index.add "View" record⟩ :=
    returns_forM_cons.2 ⟨⟨⟩, _, returns_declareView target,
      returns_forM_cons.2 ⟨⟨⟩, _, returns_declareShared written, returns_forM_nil.2 rfl⟩⟩
  have slots : Returns Build.writeIndex ⟨registered w record, index.add "View" record⟩ slots
      ⟨last, index.add "View" record⟩ :=
    .bind (returns_get.2 ⟨rfl, rfl⟩) (Build.returns_write.2 ⟨indexed, rfl⟩)
  refine .bind names (.bind modules (.bind slots (.bind (returns_get.2 ⟨rfl, rfl⟩) ?_)))
  exact returns_pure.2 ⟨by rw [same]; rfl, rfl⟩

theorem build_eq : (forest target).build ⟨1, 8⟩ =
    (.ok ⟨format, last.heap, [1], slots, 2⟩, last.log) := by
  show (((buildParts (forest target)).run.run ⟨{ format }, .emptyFor 2⟩).1,
    ((buildParts (forest target)).run.run ⟨{ format }, .emptyFor 2⟩).2.writer.log) = _
  rw [returns_build written indexed same]

end

/-- What is written behind that for a variable which points to a struct `View`. -/
def sharedBytes : List UInt8 :=
  [19, 17, 4, 4, 5, 0, 0, 0, 121, 2, 0, 0, 0, 0, 0, 0, 0, 109, 124]

/-- The writer after that variable. -/
def withShared : Writer :=
  .knowing format (Heap.empty.append (viewBytes ++ sharedBytes.take 9)) viewTexts declared.log

set_option maxRecDepth 1000 in
theorem returns_shared : Returns ((shared "View").write 0) declared 124 withShared :=
  .bind (returns_text_known rfl) (.bind (.bind (.bind (returns_text_known rfl) rfl) rfl) rfl)

/-- The writer after the index. -/
def last : Writer :=
  .knowing format (Heap.empty.append (viewBytes ++ sharedBytes)) viewTexts
    ((registered withShared 124).log.push (index.add "View" 124).summary)

theorem size_last : last.heap.size = 140 := by decide +kernel

theorem returns_index :
    Returns (index.add "View" 124).write (registered withShared 124) [130, 0, 0] last := by
  unfold Returns
  rfl

/-- What is laid out, with three buckets. -/
def parts : Parts := ⟨format, last.heap, [1], [130, 0, 0], 2⟩

theorem build_parts : (forest "View").build ⟨1, 8⟩ = (.ok parts, last.log) :=
  build_eq returns_shared returns_index rfl

theorem fit : parts.Fit := ⟨⟨by decide, by decide⟩, ⟨by decide, by decide⟩, by decide⟩

/-- The container: a header of five bytes, the module table, the slots of three buckets and the heap. -/
def bytes : Array UInt8 :=
  (([1, 8, 5, 14, 25, 1, 0, 0, 0, 0, 0, 0, 0, 1, 3, 0, 0, 0, 0, 0, 0, 0, 130, 0, 0, 0] ++
    viewBytes) ++ sharedBytes).toArray

theorem toList_bytes : bytes.toList = parts.bytes := by decide +kernel

theorem toBytes_eq : (forest "View").toBytes ⟨1, 8⟩ = .ok bytes :=
  Forest.toBytes_eq_ok.2 ⟨parts, _, build_parts, fit, toList_bytes⟩

theorem size_bytes : bytes.size = 165 := by decide +kernel

theorem fits : bytes.size ≤ Heap.largestBlock := by
  rw [size_bytes]
  decide

theorem records_eq : (forest "View").records ⟨1, 8⟩ = [109, 124] := by
  unfold Forest.records
  rw [build_parts]
  rfl

end Views

/-- The class and the variable are read back, in the module `UI` which both of their modules are of. -/
theorem container_round_trip_views :
    ∃ c os, Container.parse Views.bytes = .ok c ∧ c.modules.toList = ["UI"] ∧
      c.records = .ok os ∧ os.Perm [109, 124] ∧
      (∃ s place, c.declaration 109 = .ok s ∧ s.Mirrors 109 place "UI" Views.view) ∧
      ∃ s place, c.declaration 124 = .ok s ∧ s.Mirrors 124 place "UI" (Views.shared "View") := by
  obtain ⟨c, os, parse, -, modules, records, perm, -, each⟩ :=
    container_round_trip (Views.plain (by decide)) Views.toBytes_eq Views.fits
  rw [Views.records_eq] at perm each
  obtain - | ⟨⟨d, place, s, found, -, read, mirrors⟩, each⟩ := each
  obtain - | ⟨⟨d', place', s', found', -, read', mirrors'⟩, -⟩ := each
  obtain rfl := Option.some.inj found
  obtain rfl := Option.some.inj found'
  have topLevel : Module.topLevel ⟨"UI.View", #[0]⟩ = "UI" := by decide
  have topLevel' : Module.topLevel ⟨"UI.Shared", #[1]⟩ = "UI" := by decide
  exact ⟨c, os, parse, modules.trans (by decide), records, perm, ⟨s, place, read, topLevel ▸ mirrors⟩,
    s', place', read', topLevel' ▸ mirrors'⟩

/-! ## Lookup -/

/-- The record of the first listed declaration with this public name. -/
def Forest.firstRecord? (forest : Forest) (widths : Widths) (name : String) : Option Offset :=
  ((forest.listed.zip (forest.records widths)).find? fun entry =>
    entry.1.2.any fun d => d.info.publicName = name).map Prod.snd

theorem find?_written {table : Module × Option Declaration → Written → Prop}
    {listed : List (Module × Option Declaration)} {entries : List Written}
    (h : List.Forall₂ (fun l e => table l e ∧ l.2 = some e.declaration) listed entries)
    (name : String) :
    ((listed.zip (entries.map Written.record)).find? fun entry =>
      entry.1.2.any fun d => d.info.publicName = name).map Prod.snd =
    (entries.find? fun e => e.declaration.info.publicName = name).map Written.record := by
  induction h with
  | nil => rfl
  | @cons l e _ _ first _ ih =>
    simp only [List.map_cons, List.zip_cons_cons, List.find?_cons, first.2, Option.any_some]
    by_cases same : e.declaration.info.publicName = name
    · rw [decide_eq_true same]
      rfl
    · rw [decide_eq_false same]
      exact ih

theorem Image.names_of_base {im : Image} {record past : Offset} {base : StoredBase}
    (h : im.base record = .ok (base, past)) : im.names record = .ok (base.publicName, base.name) := by
  unfold Image.base at h
  obtain ⟨⟨publicName, name⟩, names, h⟩ := Except.bind_eq_ok.1 h
  obtain ⟨_, -, h⟩ := Except.bind_eq_ok.1 h
  obtain ⟨_, -, h⟩ := Except.bind_eq_ok.1 h
  obtain ⟨_, -, h⟩ := Except.bind_eq_ok.1 h
  obtain ⟨_, -, h⟩ := Except.bind_eq_ok.1 h
  obtain ⟨_, -, h⟩ := Except.bind_eq_ok.1 h
  obtain ⟨_, -, h⟩ := Except.bind_eq_ok.1 h
  obtain ⟨_, -, h⟩ := Except.bind_eq_ok.1 h
  cases h
  exact names

theorem Forest.Built.publicName_plain {forest : Forest} {parts : Parts} {builder : Builder}
    {entries : List Written} (built : forest.Built parts builder entries)
    (plain : ∀ listed ∈ forest.listed, ∀ d ∈ listed.2, Utf8.NulFree d.info.publicName) :
    ∀ e ∈ entries, Utf8.NulFree e.declaration.info.publicName := by
  have each := (forall₂_mem built.listed).flip.imp fun e listed h =>
    And.intro (plain listed h.1 e.declaration h.2.2.2) trivial
  exact ((List.forall₂_and_left _ _).1 each).1

theorem Container.base_of_declaration {c : Container} {record : Offset} {s : StoredDeclaration}
    (h : c.declaration record = .ok s) : ∃ past, c.heap.base record = .ok (s.base, past) := by
  unfold Container.declaration at h
  obtain ⟨⟨base, past⟩, read, h⟩ := Except.bind_eq_ok.1 h
  dsimp only at h
  cases module : c.modules[base.moduleIndex.toNat]? with
  | none =>
    rw [module] at h
    cases h
  | some name =>
    rw [module] at h
    obtain ⟨body, -, h⟩ := Except.bind_eq_ok.1 h
    cases h
    exact ⟨past, read⟩

section

variable {forest : Forest} {widths : Widths} {parts : Parts} {builder : Builder}
  {entries : List Written} (built : forest.Built parts builder entries)
  (inside : builder.writer.In parts.image)
  (plain : ∀ listed ∈ forest.listed, ∀ d ∈ listed.2, Utf8.NulFree d.info.publicName)

include built inside

/-- A registered record shows as much of the name that it is registered under as can be stored. -/
theorem Forest.Built.names_read : ∀ e ∈ entries.map fun e => (e.declaration.info.publicName, e.record),
    ∃ internal, parts.image.names e.2 = .ok (Utf8.upToNul e.1, internal) := by
  intro entry h
  obtain ⟨e, he, rfl⟩ := List.mem_map.1 h
  obtain ⟨w, w', sound, run, within⟩ := built.tracks.written e he
  exact ⟨_, Declaration.write_names sound run (within inside)⟩

/-- A lookup finds the first registered record that it meets. -/
theorem Forest.Built.lookup_meets (modules : List String) (name : String) :
    (parts.opened modules).lookup name =
      .ok ((entries.find? fun e => Meets builder.index.capacity name
        e.declaration.info.publicName).map Written.record) := by
  have slots := built.slots.imp fun _ _ h => h _ inside
  have lookup := Container.lookup_eq (c := parts.opened modules) built.tracks.index slots
    (built.names_read inside) name
  rw [lookup, List.find?_map, Option.map_map]
  rfl

include plain

variable (records : forest.records widths = entries.map Written.record)

include records

theorem Forest.Built.lookup_eq (modules : List String) (name : String) :
    (parts.opened modules).lookup name = .ok (forest.firstRecord? widths name) := by
  have free := built.publicName_plain plain
  have met : entries.find? (fun e => Meets builder.index.capacity name e.declaration.info.publicName) =
      entries.find? fun e => e.declaration.info.publicName = name :=
    List.find?_congr fun e he => decide_eq_decide.2 (meets_iff (free e he))
  rw [built.lookup_meets inside, met, Forest.firstRecord?, records, find?_written built.listed name]

theorem Forest.Built.publicName_eq {modules : List String} {name : String} {record : Offset}
    {s : StoredDeclaration} (found : forest.firstRecord? widths name = some record)
    (declaration : (parts.opened modules).declaration record = .ok s) : s.base.publicName = name := by
  unfold Forest.firstRecord? at found
  rw [records, find?_written built.listed name] at found
  obtain ⟨e, here, rfl⟩ := Option.map_eq_some_iff.1 found
  have he := List.mem_of_find?_eq_some here
  obtain ⟨internal, names⟩ := built.names_read inside _ (List.mem_map_of_mem he)
  obtain ⟨past, base⟩ := Container.base_of_declaration declaration
  have shown := List.find?_some here
  rw [decide_eq_true_eq] at shown
  have same := (Image.names_of_base base).symm.trans names
  rw [Utf8.upToNul_eq_self (built.publicName_plain plain e he)] at same
  exact (Prod.mk.inj (Except.ok.inj same)).1.trans shown

end

/-- **A lookup finds the first declaration with the name**, and nothing for a name that no declaration
shows outside. The bytes are in one block of memory, as all bytes are. -/
theorem lookup_finds_first {forest : Forest} {widths : Widths} {b : Array UInt8}
    (plain : ∀ listed ∈ forest.listed, ∀ d ∈ listed.2, Utf8.NulFree d.info.publicName)
    (saved : forest.toBytes widths = .ok b) (fits : b.size ≤ Heap.largestBlock) :
    ∃ c, Container.parse b = .ok c ∧ (forest.records widths).length = forest.listed.length ∧
      ∀ name, c.lookup name = .ok (forest.firstRecord? widths name) ∧
        (c.resolve name = match forest.firstRecord? widths name with
          | some record => .ok record
          | none => .error (.unresolved name)) ∧
        ∀ record s, forest.firstRecord? widths name = some record →
          c.declaration record = .ok s → s.base.publicName = name := by
  obtain ⟨parts, builder, entries, built, format, records, inside, parse⟩ :=
    Forest.open_returns saved fits
  refine ⟨_, parse, ?_, ?_⟩
  · rw [records, List.length_map, built.listed.length_eq]
  intro name
  have lookup := built.lookup_eq inside plain records (forest.topLevelNames.map Utf8.upToNul) name
  refine ⟨lookup, ?_, ?_⟩
  · rw [Container.resolve, lookup, Except.ok_bind]
    cases forest.firstRecord? widths name <;> rfl
  · intro record s found declaration
    exact built.publicName_eq inside plain records found declaration

/-- Of the class and the variable that are shown as `View` the class is found, which is listed first. Its
own name is not found, for it is not shown. -/
theorem lookup_finds_first_views : ∃ c, Container.parse Views.bytes = .ok c ∧
    c.lookup "View" = .ok (some 109) ∧ c.resolve "View" = .ok 109 ∧
    c.lookup "UIView" = .ok none ∧ c.resolve "UIView" = .error (.unresolved "UIView") := by
  have plain : (Views.forest "View").Plain := Views.plain (by decide)
  obtain ⟨c, parse, -, lookup⟩ := lookup_finds_first
    (fun listed h d hd => (plain.declarations listed h d hd).texts _ List.mem_cons_self)
    Views.toBytes_eq Views.fits
  have found : (Views.forest "View").firstRecord? ⟨1, 8⟩ "View" = some 109 := by
    rw [Forest.firstRecord?, Views.records_eq]
    rfl
  have missing : (Views.forest "View").firstRecord? ⟨1, 8⟩ "UIView" = none := by
    rw [Forest.firstRecord?, Views.records_eq]
    rfl
  obtain ⟨lookup₁, resolve₁, -⟩ := lookup "View"
  obtain ⟨lookup₂, resolve₂, -⟩ := lookup "UIView"
  rw [found] at lookup₁ resolve₁
  rw [missing] at lookup₂ resolve₂
  exact ⟨c, parse, lookup₁, resolve₁, lookup₂, resolve₂⟩

end DeclArchive
