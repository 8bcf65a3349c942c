import DeclArchive.Proofs.Container.RoundTrip

/-!
# Saving in place

A save writes the container where the stream is and leaves what is before and behind it, as long as the
stream grows. The bytes are those that a save to an empty stream leaves, so every place in the header is
counted from the start of the container. What the save reports is what was built: the numbers of
top-level names, of declarations, of buckets and of bytes (`save_in_place`).
-/

namespace DeclArchive

/-! ## Buckets -/

/-- The builders have as many buckets. -/
def Builder.SameCapacity (b b' : Builder) : Prop := b'.index.capacity = b.index.capacity

instance : IsPreorder Builder Builder.SameCapacity where
  refl _ := rfl
  trans _ _ _ h k := k.trans h

namespace Build

theorem sameCapacity_write {α : Type} (x : Write α) : Keeps Builder.SameCapacity (write x) :=
  fun _ => rfl

theorem sameCapacity_addName (name : String) (o : Offset) :
    Keeps Builder.SameCapacity (addName name o) := by
  unfold addName
  refine keeps_get.bind fun b => ?_
  have add (b : Builder) : (b.index.add name o).capacity = b.index.capacity :=
    b.index.capacity_add name o
  dsimp only
  split_ifs
  · exact (sameCapacity_write _).bind fun _ => keeps_modify add
  · exact keeps_modify add

theorem sameCapacity_declare (module : UInt16) (d : Declaration) :
    Keeps Builder.SameCapacity (declare module d) :=
  (sameCapacity_write _).bind fun _ => (sameCapacity_addName _ _).bind fun _ =>
    (sameCapacity_write _).bind fun _ => keeps_pure _

end Build

theorem sameCapacity_declareModule (forest : Forest) (table : ModuleNames) (m : Module) :
    Keeps Builder.SameCapacity (declareModule forest table m) := by
  unfold declareModule
  cases table.place? m.topLevel with
  | none => exact keeps_throw _
  | some place =>
    refine Keeps.forM (fun id => ?_) _
    cases forest.get? id with
    | none => exact keeps_throw _
    | some d => exact (Build.sameCapacity_declare place d).bind fun _ => keeps_pure _

theorem sameCapacity_buildParts (forest : Forest) :
    Keeps Builder.SameCapacity (buildParts forest) :=
  (Build.sameCapacity_write _).bind fun _ =>
    (Keeps.forM (sameCapacity_declareModule forest _) _).bind fun _ =>
      (keeps_get.bind fun _ => Build.sameCapacity_write _).bind fun _ =>
        keeps_get.bind fun _ => keeps_pure _

/-- The parts report as many declarations as the index has entries. -/
theorem buildParts_declarations {forest : Forest} {parts : Parts} {b b' : Builder}
    (run : Returns (buildParts forest) b parts b') : parts.declarations = b'.index.size := by
  unfold buildParts at run
  simp only [returns_bind, returns_get, returns_pure] at run
  obtain ⟨_, _, -, _, _, -, _, _, -, _, _, ⟨rfl, rfl⟩, rfl, rfl⟩ := run
  rfl

/-! ## Counts -/

namespace Forest

theorem length_listed (forest : Forest) : forest.listed.length = forest.listedCount := by
  have sum (modules : List Module) (n : Nat) :
      modules.foldl (fun n m => n + m.declarations.size) n =
        n + (modules.map fun m => m.declarations.size).sum := by
    induction modules generalizing n with
    | nil => rfl
    | cons m modules ih => rw [List.foldl_cons, ih, List.map_cons, List.sum_cons, Nat.add_assoc]
  rw [listed, listedCount, ← Array.foldl_toList, sum, Nat.zero_add, List.length_flatMap]
  simp only [List.length_map, Array.length_toList]

variable {forest : Forest} {parts : Parts} {b : Builder} {entries : List Written}

/-- A forest that was built lists nothing but what can be stored. -/
theorem Built.storable_eq (built : forest.Built parts b entries) :
    forest.storable = entries.map Written.declaration := by
  have written : forest.listed.filterMap Prod.snd = entries.map Written.declaration := by
    have listed := built.listed
    clear built
    generalize forest.listed = all at listed
    induction listed with
    | nil => rfl
    | cons first _ ih => rw [List.filterMap_cons_some first.2, ih, List.map_cons]
  rw [storable, written, List.filter_eq_self.2]
  intro d hd
  obtain ⟨e, he, rfl⟩ := List.mem_map.1 hd
  obtain ⟨w, w', -, run, -⟩ := built.tracks.written e he
  rw [Declaration.not_category_of_write run, Bool.not_false]

/-- What the parts count: the top-level names, the listed declarations and the buckets. -/
structure Counts (forest : Forest) (parts : Parts) : Prop where
  modules : parts.modules.length = forest.topLevelNames.length
  declarations : parts.declarations = forest.listedCount
  slots : parts.slots.length = bucketCountFor forest.listedCount

theorem counts_of_build {widths : Widths} {log : Log}
    (h : forest.build widths = (.ok parts, log)) : forest.Counts parts := by
  unfold Forest.build at h
  rcases fresh : Writer.empty widths with e | w
  · rw [fresh] at h
    cases h
  rw [fresh] at h
  dsimp only at h
  obtain ⟨-, records⟩ := Writer.empty_returns fresh
  rcases run : (buildParts forest).run.run ⟨w, .emptyFor forest.storable.length⟩ with ⟨result, b⟩
  rw [run] at h
  obtain ⟨rfl, rfl⟩ := Prod.mk.inj h
  obtain ⟨entries, built, -⟩ := buildParts_returns (Writer.sound_empty fresh) records
    (NameIndex.holds_empty _) run
  have capacity : b.index.capacity = _ := (sameCapacity_buildParts forest).of_returns run
  have stored : forest.storable.length = forest.listedCount := by
    rw [built.storable_eq, List.length_map, ← built.listed.length_eq, forest.length_listed]
  refine ⟨built.modules.length_eq.symm, ?_, ?_⟩
  · rw [buildParts_declarations run, built.tracks.index.size, List.length_map,
      ← built.listed.length_eq, forest.length_listed]
  · rw [← built.slots.length_eq, Array.length_toList, ← stored]
    exact capacity.trans (NameIndex.capacity_emptyFor _)

end Forest

/-! ## Layout -/

/-- The header of a container with so many top-level names and buckets: each part begins where the one
before it ends. -/
def Header.counting (widths : Widths) (modules buckets : Nat) : Header where
  widths := widths
  moduleTable := 2 + 3 * widths.pointer.toNat
  globalTable := 2 + 3 * widths.pointer.toNat +
    (widths.count.toNat + widths.pointer.toNat * modules)
  heap := 2 + 3 * widths.pointer.toNat + (widths.count.toNat + widths.pointer.toNat * modules) +
    (widths.count.toNat + widths.pointer.toNat * buckets)

/-- The bytes are the header, the table of the modules, the slots and the heap without gaps. Each part is
where the header says. -/
def Parts.LaidOut (parts : Parts) (header : Header) (b : Array UInt8) : Prop :=
  ∃ front modules slots, header.encode = .ok front ∧
    sectionBytes parts.format parts.modules = .ok modules ∧
      sectionBytes parts.format parts.slots = .ok slots ∧
        b.toList = front ++ modules ++ slots ++ parts.heap.bytes.toList ∧
          header.moduleTable = front.length ∧ header.globalTable = (front ++ modules).length ∧
            header.heap = (front ++ modules ++ slots).length

theorem length_sectionRun (f : Format) (offsets : List Offset) :
    (sectionRun f offsets).length = f.countWidth + f.pointerWidth * offsets.length := by
  rw [sectionRun, List.length_append, LittleEndian.length_encode, Image.length_pointerRun,
    Nat.mul_comm]

theorem Parts.header_eq (parts : Parts) : parts.header =
    .counting parts.format.toWidths parts.modules.length parts.slots.length := by
  unfold Parts.header Header.counting
  rw [length_sectionRun, length_sectionRun]
  rfl

theorem Parts.Fit.laidOut {parts : Parts} {b : Array UInt8} (fit : parts.Fit)
    (bytes : b.toList = parts.bytes) : parts.LaidOut parts.header b := by
  refine ⟨_, _, _, (Header.encode_eq_ok rfl).2 ⟨fit.places, rfl⟩,
    sectionBytes_eq_ok.2 ⟨fit.modules, rfl⟩, sectionBytes_eq_ok.2 ⟨fit.slots, rfl⟩, bytes, ?_, ?_, ?_⟩
  · exact parts.length_front.symm
  · rw [List.length_append]
    exact congrArg (· + _) parts.length_front.symm
  · rw [List.length_append, List.length_append]
    exact congrArg (· + _ + _) parts.length_front.symm

/-- What a save reports of a container `b` of the forest. -/
structure Forest.Reports (forest : Forest) (parts : Parts) (b : Array UInt8) (summary : Summary) :
    Prop where
  modules : summary.modules = forest.topLevelNames.length
  declarations : summary.declarations = forest.listedCount
  buckets : summary.buckets = bucketCountFor forest.listedCount
  heapSize : summary.heapSize = parts.heap.bytes.size
  fileSize : summary.fileSize = b.size

theorem Stream.Holds.eq_inPlace {s first : Stream} {b : Array UInt8}
    (holds : s.Holds first b.toList (first.position + b.toList.length)) :
    s = ⟨first.content.extract 0 first.position ++ b ++
      first.content.extract (first.position + b.size) first.content.size,
        first.position + b.size, first.growable⟩ := by
  obtain ⟨content, position, growable⟩ := s
  obtain ⟨rfl, bytes, rfl, -⟩ := holds
  rw [Array.length_toList, Stream.mk.injEq]
  refine ⟨Array.toList_inj.1 (bytes.trans ?_), rfl, rfl⟩
  rw [Stream.overlay]
  simp [List.extract, List.take_of_length_le]

/-- **A save works in place.** To a stream that grows, a forest is saved wherever it has a container. The
container then stands where the stream was, in place of as many bytes, and all others are as they were.
It is laid out without gaps, with the places that the header holds counted from its start, and the save
reports what was built. -/
theorem save_in_place {forest : Forest} {widths : Widths} {s : Stream} (grows : s.growable = true)
    (inside : s.position ≤ s.content.size) :
    ((∃ summary, (forest.save widths s).result = .ok summary) ↔
      ∃ b, forest.toBytes widths = .ok b) ∧
    ∀ summary, (forest.save widths s).result = .ok summary →
      ∃ b parts log, forest.toBytes widths = .ok b ∧ forest.build widths = (.ok parts, log) ∧
        (forest.save widths s).stream = ⟨s.content.extract 0 s.position ++ b ++
          s.content.extract (s.position + b.size) s.content.size, s.position + b.size, true⟩ ∧
        parts.LaidOut (.counting widths summary.modules summary.buckets) b ∧
        forest.Reports parts b summary := by
  constructor
  · obtain ⟨b, saves⟩ | fails := forest.saves_or_fails widths inside
    · exact ⟨fun _ => ⟨b, saves.bytes⟩, fun _ => saves.result⟩
    · obtain ⟨e, result⟩ := fails.result
      refine ⟨fun ⟨summary, saved⟩ => ?_, fun ⟨b, saved⟩ => ?_⟩
      · exact nomatch result.symm.trans saved
      · exact absurd (.inl grows) (fails.full b saved)
  · intro summary saved
    rcases build : forest.build widths with ⟨e | parts, log⟩
    · rw [Forest.save_of_error build] at saved
      cases saved
    obtain ⟨summary', s', run⟩ | ⟨e, s', run⟩ := returns_or_stops parts.save s
    · have save := Forest.save_of_returns build run
      rw [save] at saved ⊢
      obtain rfl := Except.ok.inj saved
      obtain ⟨fit, rfl, holds⟩ := Parts.save_returns inside run
      have counts := Forest.counts_of_build build
      obtain ⟨_, _, -, format, -⟩ := Forest.build_returns build
      refine ⟨parts.bytes.toArray, parts, log, Forest.toBytes_eq_ok.2 ⟨parts, log, build, fit, rfl⟩,
        rfl, ?_, ?_, ?_⟩
      · rw [← grows]
        exact Stream.Holds.eq_inPlace holds
      · have laidOut := fit.laidOut (b := parts.bytes.toArray) rfl
        rwa [parts.header_eq, format] at laidOut
      · exact ⟨counts.modules, counts.declarations, counts.slots, rfl, List.size_toArray.symm⟩
    · rw [Forest.save_of_stops build run] at saved
      cases saved

/-- The sample is saved over the bytes from the third on; two before and three behind stay. -/
theorem save_in_place_sample : ∃ summary,
    (Sample.forest.save ⟨1, 1⟩ ⟨Array.replicate 30 7, 2, true⟩).result = .ok summary ∧
      (Sample.forest.save ⟨1, 1⟩ ⟨Array.replicate 30 7, 2, true⟩).stream =
        ⟨#[7, 7] ++ Sample.bytes ++ #[7, 7, 7], 27, true⟩ ∧
      summary.modules = 1 ∧ summary.declarations = 1 ∧ summary.buckets = 2 ∧
        summary.fileSize = 25 := by
  obtain ⟨saved, places⟩ :=
    @save_in_place Sample.forest ⟨1, 1⟩ ⟨Array.replicate 30 7, 2, true⟩ rfl (by decide)
  obtain ⟨summary, result⟩ := saved.2 ⟨_, Sample.toBytes_eq⟩
  obtain ⟨b, parts, log, bytes, -, stream, -, reports⟩ := places summary result
  obtain rfl := Except.ok.inj (Sample.toBytes_eq.symm.trans bytes)
  refine ⟨summary, result, stream.trans (by decide), reports.modules.trans (by decide),
    reports.declarations, reports.buckets.trans (by decide), reports.fileSize⟩

end DeclArchive
