import DeclArchive.Container.Build
import DeclArchive.Proofs.Register

/-!
# What building a container leaves

The module table lists each top-level name once, in the order in which they are first seen, and knows the
place of each (`ModuleNames.Lists`). Every declaration that a module lists is written, registered and
reported once, in order, each record behind the one before (`Builder.Tracks`). A build that succeeds
leaves both (`Forest.build_returns`).
-/

namespace DeclArchive

open Write

/-! ## Module table -/

theorem eraseDups_concat (names : List String) (name : String) :
    (names ++ [name]).eraseDups =
      if name ∈ names then names.eraseDups else names.eraseDups ++ [name] := by
  rw [List.eraseDups_append, List.removeAll]
  by_cases known : name ∈ names
  · simp [known]
  · simp [known, List.eraseDups_cons]

theorem nodup_eraseDups (names : List String) : names.eraseDups.Nodup := by
  induction names using List.reverseRecOn with
  | nil => exact List.nodup_nil
  | append_singleton names name ih =>
    rw [eraseDups_concat]
    split_ifs with known
    · exact ih
    · refine List.nodup_append.2 ⟨ih, List.pairwise_singleton _ name, fun s hs t ht => ?_⟩
      rintro rfl
      exact known (List.mem_singleton.1 ht ▸ List.mem_eraseDups.1 hs)

/-- The table holds these names, each once, in the order in which they are first seen. -/
structure ModuleNames.Lists (table : ModuleNames) (seen : List String) (w : Writer) : Prop where
  names : List.Forall₂ (fun s o => w.heap.Stores o s) seen.eraseDups table.names.toList
  place : ∀ (name : String) (i : Nat), table.places[name]? = some i → seen.eraseDups[i]? = some name
  all : ∀ name ∈ seen, table.places.contains name
  few : seen.eraseDups.length ≤ 65536

namespace ModuleNames

variable {table table' : ModuleNames} {seen : List String} {w w' : Writer}

theorem grows_add (table : ModuleNames) (m : Module) : Grows (table.add m) := by
  unfold add
  dsimp only
  split_ifs
  · exact keeps_pure _
  · exact (keeps_throw _).bind fun _ => (grows_text _).bind fun _ => keeps_pure _
  · exact (grows_text _).bind fun _ => keeps_pure _

theorem grows_write (forest : Forest) : Grows (write forest) :=
  Keeps.foldlM grows_add forest.modules.toList {}

theorem lists_empty (w : Writer) : ({} : ModuleNames).Lists [] w where
  names := .nil
  place name i known := by
    rw [Std.HashMap.getElem?_empty] at known
    cases known
  all := nofun
  few := Nat.zero_le _

/-- A name that was seen before changes nothing. -/
theorem Lists.again {name : String} (lists : table.Lists seen w) (mem : name ∈ seen) :
    table.Lists (seen ++ [name]) w := by
  have same : (seen ++ [name]).eraseDups = seen.eraseDups := by
    rw [eraseDups_concat, if_pos mem]
  refine ⟨same ▸ lists.names, same ▸ lists.place, ?_, same ▸ lists.few⟩
  intro s h
  obtain h | h := List.mem_append.1 h
  · exact lists.all s h
  · rw [List.mem_singleton.1 h]
    exact lists.all name mem

/-- A new name is put at the end of the table. -/
theorem Lists.push {name : String} {start : Offset} (lists : table.Lists seen w)
    (new : name ∉ seen) (few : table.names.size ≤ 65535)
    (names : ∀ s o, w.heap.Stores o s → w'.heap.Stores o s) (stores : w'.heap.Stores start name) :
    Lists ⟨table.names.push start, table.places.insert name table.names.size⟩ (seen ++ [name])
      w' := by
  have length : seen.eraseDups.length = table.names.size := by
    rw [lists.names.length_eq, Array.length_toList]
  have more : (seen ++ [name]).eraseDups = seen.eraseDups ++ [name] := by
    rw [eraseDups_concat, if_neg new]
  refine ⟨?_, fun s i h => ?_, fun s h => ?_, ?_⟩
  · rw [more, Array.toList_push]
    exact List.rel_append (lists.names.imp fun s o h => names s o h) (.cons stores .nil)
  · rw [more]
    rw [Std.HashMap.getElem?_insert] at h
    split_ifs at h with e
    · obtain rfl : name = s := by simpa using e
      obtain rfl := Option.some.inj h
      rw [← length, List.getElem?_concat_length]
    · have before := lists.place s i h
      rwa [List.getElem?_append_left (List.getElem?_eq_some_iff.1 before).1]
  · rw [Std.HashMap.contains_insert]
    obtain h | h := List.mem_append.1 h
    · rw [lists.all s h, Bool.or_true]
    · rw [List.mem_singleton.1 h, beq_self_eq_true, Bool.true_or]
  · rw [more, List.length_append, length, List.length_singleton]
    omega

theorem Lists.mem_of_contains {name : String} (lists : table.Lists seen w)
    (known : table.places.contains name = true) : name ∈ seen := by
  rw [Std.HashMap.contains_eq_isSome_getElem?, Option.isSome_iff_exists] at known
  obtain ⟨i, known⟩ := known
  exact List.mem_eraseDups.1 (List.mem_of_getElem? (lists.place _ _ known))

theorem Lists.add {m : Module} (lists : table.Lists seen w) (sound : w.Sound)
    (run : Returns (table.add m) w table' w') : table'.Lists (seen ++ [m.topLevel]) w' := by
  unfold ModuleNames.add at run
  dsimp only at run
  split_ifs at run with known many
  · obtain ⟨rfl, rfl⟩ := returns_pure.1 run
    exact lists.again (lists.mem_of_contains known)
  · obtain ⟨_, _, stop, -⟩ := returns_bind.1 run
    exact (returns_throw.1 stop).elim
  · obtain ⟨start, v, text, run⟩ := returns_bind.1 run
    obtain ⟨rfl, rfl⟩ := returns_pure.1 run
    have new : m.topLevel ∉ seen := fun h => known (lists.all _ h)
    have grew := (grows_text _).of_returns text
    exact lists.push new (Nat.not_lt.1 many) (fun s o h => h.mono grew.heap)
      (text_stores sound text)

theorem Lists.foldlM {modules : List Module} (lists : table.Lists seen w) (sound : w.Sound)
    (run : Returns (modules.foldlM ModuleNames.add table) w table' w') :
    table'.Lists (seen ++ modules.map Module.topLevel) w' := by
  induction modules generalizing seen table w with
  | nil =>
    obtain ⟨rfl, rfl⟩ := returns_pure.1 run
    rwa [List.map_nil, List.append_nil]
  | cons m modules ih =>
    rw [List.foldlM_cons] at run
    obtain ⟨next, v, first, rest⟩ := returns_bind.1 run
    have := ih (lists.add sound first) (((grows_add table m).of_returns first).sound sound) rest
    rwa [List.append_assoc] at this

/-- The table of a forest lists the top-level names of its modules. -/
theorem lists_write {forest : Forest} (sound : w.Sound) (run : Returns (write forest) w table w') :
    table.Lists (forest.modules.toList.map Module.topLevel) w' :=
  (lists_empty w).foldlM sound run

/-- The place of a listed name leads to it. -/
theorem Lists.place?_eq {name : String} {place : UInt16} (lists : table.Lists seen w)
    (h : table.place? name = some place) : seen.eraseDups[place.toNat]? = some name := by
  unfold place? at h
  obtain ⟨i, known, rfl⟩ := Option.map_eq_some_iff.1 h
  have found := lists.place name i known
  have lt := (List.getElem?_eq_some_iff.1 found).1
  have value : (UInt16.ofNat i).toNat = i := by
    have := lists.few
    rw [UInt16.toNat_ofNat']
    omega
  rwa [value]

end ModuleNames

/-! ## Records -/

/-- A declaration that was written: the place of its module, and its record. -/
structure Written where
  place : UInt16
  declaration : Declaration
  record : Offset

/-- These declarations were written, in this order, and nothing else was registered or reported. -/
structure Builder.Tracks (b : Builder) (entries : List Written) : Prop where
  sound : b.writer.Sound
  index : b.index.Holds (entries.map fun e => (e.declaration.info.publicName, e.record))
  reported : b.writer.log.records = entries.map Written.record
  ordered : (entries.map Written.record).Pairwise (· < ·)
  below : ∀ e ∈ entries, e.record < b.writer.heap.size
  written : ∀ e ∈ entries, ∃ w w', w.Sound ∧ Returns (e.declaration.write e.place) w e.record w' ∧
    ∀ {im : Image}, b.writer.In im → w'.In im

section

variable {b b' : Builder} {entries : List Written} {u : Unit}

/-- Later writing that registers and reports nothing keeps the list. -/
theorem Builder.Tracks.mono (tracks : b.Tracks entries) (grew : b.Grew b')
    (index : b'.index = b.index) (records : b'.writer.log.records = b.writer.log.records) :
    b'.Tracks entries where
  sound := grew.sound tracks.sound
  index := index ▸ tracks.index
  reported := records.trans tracks.reported
  ordered := tracks.ordered
  below e he := (tracks.below e he).trans_le grew.heap.length_le
  written e he := by
    obtain ⟨w, w', sound, run, inside⟩ := tracks.written e he
    exact ⟨w, w', sound, run, fun h => inside (grew.within h)⟩

/-- A declaration that is written and registered comes last. -/
theorem Builder.Tracks.declare {place : UInt16} {d : Declaration} {record : Offset}
    (tracks : b.Tracks entries) (run : Returns (Build.declare place d) b record b') :
    b'.Tracks (entries ++ [⟨place, d, record⟩]) := by
  have grew := (Build.grows_declare place d).of_returns run
  obtain ⟨w, write, later, index, records⟩ := Build.declare_returns run
  obtain ⟨low, high⟩ := Declaration.write_bounds write
  refine ⟨grew.sound tracks.sound, ?_, ?_, ?_, ?_, ?_⟩
  · rw [index, List.map_append]
    exact tracks.index.add _ _
  · rw [records, tracks.reported, List.map_append]
    rfl
  · rw [List.map_append, List.pairwise_append]
    refine ⟨tracks.ordered, List.pairwise_singleton _ _, fun o ho o' ho' => ?_⟩
    obtain ⟨e, he, rfl⟩ := List.mem_map.1 ho
    rw [List.mem_singleton.1 ho']
    exact (tracks.below e he).trans_le low
  · intro e he
    obtain he | he := List.mem_append.1 he
    · exact (tracks.below e he).trans_le grew.heap.length_le
    · rw [List.mem_singleton.1 he]
      exact high.trans_le later.heap.length_le
  · intro e he
    obtain he | he := List.mem_append.1 he
    · obtain ⟨v, v', sound, written, inside⟩ := tracks.written e he
      exact ⟨v, v', sound, written, fun h => inside (grew.within h)⟩
    · rw [List.mem_singleton.1 he]
      exact ⟨b.writer, w, tracks.sound, write, later.within⟩

variable {forest : Forest} {table : ModuleNames}

/-- The written declaration is what the module lists there, and has the place of the module. -/
def Written.Is (table : ModuleNames) (listed : Module × Option Declaration) (e : Written) : Prop :=
  table.place? listed.1.topLevel = some e.place ∧ listed.2 = some e.declaration

theorem Builder.Tracks.declareAll {m : Module} {place : UInt16} {ids : List DeclId}
    (here : table.place? m.topLevel = some place) (tracks : b.Tracks entries)
    (run : Returns (ids.forM fun id => do
      let some d := forest.get? id | throw (.broken (.missingDeclaration m.name))
      let _ ← Build.declare place d) b u b') :
    ∃ more, b'.Tracks (entries ++ more) ∧
      List.Forall₂ (Written.Is table) (ids.map fun id => (m, forest.get? id)) more := by
  induction ids generalizing b entries with
  | nil =>
    obtain rfl := returns_forM_nil.1 run
    exact ⟨[], by rwa [List.append_nil], .nil⟩
  | cons id ids ih =>
    obtain ⟨_, c, first, rest⟩ := returns_forM_cons.1 run
    cases found : forest.get? id with
    | none =>
      rw [found] at first
      exact (returns_throw.1 first).elim
    | some d =>
      rw [found] at first
      simp only [returns_bind, returns_pure] at first
      obtain ⟨record, _, declare, -, rfl⟩ := first
      obtain ⟨more, tracks', listed⟩ := ih (tracks.declare declare) rest
      rw [List.append_assoc] at tracks'
      refine ⟨⟨place, d, record⟩ :: more, tracks', ?_⟩
      rw [List.map_cons]
      exact .cons ⟨here, found⟩ listed

theorem Builder.Tracks.declareModule {m : Module} (tracks : b.Tracks entries)
    (run : Returns (declareModule forest table m) b u b') :
    ∃ more, b'.Tracks (entries ++ more) ∧ List.Forall₂ (Written.Is table)
      (m.declarations.toList.map fun id => (m, forest.get? id)) more := by
  unfold DeclArchive.declareModule at run
  cases here : table.place? m.topLevel with
  | none =>
    rw [here] at run
    exact (returns_throw.1 run).elim
  | some place =>
    rw [here] at run
    exact tracks.declareAll here run

theorem Builder.Tracks.declareModules {modules : List Module} (tracks : b.Tracks entries)
    (run : Returns (modules.forM (DeclArchive.declareModule forest table)) b u b') :
    ∃ more, b'.Tracks (entries ++ more) ∧ List.Forall₂ (Written.Is table)
      (modules.flatMap fun m => m.declarations.toList.map fun id => (m, forest.get? id)) more := by
  induction modules generalizing b entries with
  | nil =>
    obtain rfl := returns_forM_nil.1 run
    exact ⟨[], by rwa [List.append_nil], .nil⟩
  | cons m modules ih =>
    obtain ⟨_, c, first, rest⟩ := returns_forM_cons.1 run
    obtain ⟨more, tracks', here⟩ := tracks.declareModule first
    obtain ⟨others, tracks'', there⟩ := ih tracks' rest
    rw [List.append_assoc] at tracks''
    exact ⟨more ++ others, tracks'', List.rel_append here there⟩

end

theorem grows_declareModule (forest : Forest) (table : ModuleNames) (m : Module) :
    Keeps Builder.Grew (declareModule forest table m) := by
  unfold declareModule
  cases table.place? m.topLevel with
  | none => exact keeps_throw _
  | some place =>
    refine Keeps.forM (fun id => ?_) _
    cases forest.get? id with
    | none => exact keeps_throw _
    | some d => exact (Build.grows_declare place d).bind fun _ => keeps_pure _

/-! ## Builds -/

/-- The top-level names of a forest, each once, in the order in which they are first seen. -/
def Forest.topLevelNames (f : Forest) : List String :=
  (f.modules.toList.map Module.topLevel).eraseDups

/-- What a build leaves, in the last builder and in the parts: every listed declaration was written, and
the tables lead to the top-level names and to the buckets of the index. -/
structure Forest.Built (forest : Forest) (parts : Parts) (b : Builder) (entries : List Written) :
    Prop where
  format : parts.format = b.writer.format
  heap : parts.heap = b.writer.heap
  tracks : b.Tracks entries
  listed : List.Forall₂ (fun listed e =>
    forest.topLevelNames[e.place.toNat]? = some listed.1.topLevel ∧
      listed.2 = some e.declaration) forest.listed entries
  modules : List.Forall₂ (fun s o => b.writer.heap.Stores o s) forest.topLevelNames parts.modules
  slots : List.Forall₂ (fun chain slot => ∀ im, b.writer.In im →
    im.arrayOrEmpty slot = .ok (chain.map Prod.snd)) b.index.buckets.toList parts.slots

theorem buildParts_returns {forest : Forest} {w : Writer} {index : NameIndex} {parts : Parts}
    {b : Builder} (sound : w.Sound) (fresh : w.log.records = []) (empty : index.Holds [])
    (run : Returns (buildParts forest) ⟨w, index⟩ parts b) :
    ∃ entries, forest.Built parts b entries ∧ b.writer.format = w.format := by
  unfold buildParts at run
  simp only [returns_bind, returns_get, returns_pure] at run
  obtain ⟨table, b₁, run₁, _, b₂, run₂, slots, b₃, run₃, _, _, ⟨rfl, rfl⟩, rfl, rfl⟩ := run
  have grew₁ := (Build.grows_write (ModuleNames.grows_write forest)).of_returns run₁
  have grew₂ := (Keeps.forM (grows_declareModule forest table) _).of_returns run₂
  have grew₃ := Build.grows_writeIndex.of_returns run₃
  obtain ⟨names, index₁⟩ := Build.returns_write.1 run₁
  obtain ⟨write, index₃⟩ := Build.writeIndex_returns run₃
  have lists := ModuleNames.lists_write sound names
  have tracks₁ : b₁.Tracks [] := by
    refine ⟨grew₁.sound sound, index₁ ▸ empty, ?_, .nil, List.forall_mem_nil _,
      List.forall_mem_nil _⟩
    exact ((ModuleNames.grows_write forest).of_returns names).records.trans fresh
  obtain ⟨entries, tracks₂, listed⟩ := tracks₁.declareModules run₂
  rw [List.nil_append] at tracks₂
  have tracks₃ := tracks₂.mono grew₃ index₃ (b₂.index.grows_write.of_returns write).records
  have grew := trans_of Builder.Grew grew₂ grew₃
  refine ⟨entries, ⟨rfl, rfl, tracks₃, ?_, ?_, ?_⟩,
    grew.format.trans grew₁.format⟩
  · exact listed.imp fun _ _ h => ⟨lists.place?_eq h.1, h.2⟩
  · exact lists.names.imp fun _ _ h => h.mono grew.heap
  · rw [index₃]
    exact (NameIndex.write_reads write).imp fun _ _ h => h.2

/-- A build that succeeds has written every listed declaration, and reported its record. -/
theorem Forest.build_returns {forest : Forest} {widths : Widths} {parts : Parts} {log : Log}
    (h : forest.build widths = (.ok parts, log)) :
    ∃ b entries, forest.Built parts b entries ∧ parts.format.toWidths = widths ∧
      log.records = entries.map Written.record := by
  unfold Forest.build at h
  cases fresh : Writer.empty widths with
  | error e =>
    rw [fresh] at h
    cases h
  | ok w =>
    rw [fresh] at h
    dsimp only at h
    obtain ⟨format, records⟩ := Writer.empty_returns fresh
    rcases run : (buildParts forest).run.run ⟨w, .emptyFor forest.storable.length⟩ with ⟨result, b⟩
    rw [run] at h
    obtain ⟨rfl, rfl⟩ := Prod.mk.inj h
    obtain ⟨entries, built, kept⟩ := buildParts_returns (Writer.sound_empty fresh) records
      (NameIndex.holds_empty _) run
    refine ⟨b, entries, built, ?_, built.tracks.reported⟩
    rw [built.format, kept, format]

end DeclArchive
