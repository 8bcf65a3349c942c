import DeclArchive.Proofs.Container.InPlace
import DeclArchive.Proofs.Container.Widening
import DeclArchive.Proofs.Refusal

/-!
# What is refused of a forest

With eight bytes for every number a forest is refused for more top-level names than two bytes can tell
apart, or else for the first declaration that a module lists and that is missing or refused itself
(`Forest.refusal?`, `Forest.Refuses`). Every other forest has a container (`refused_exactly`). The guards
against a module without a place and against a type without an offset never act.
-/

namespace DeclArchive

open Write

/-! ## Module table -/

/-- The refusal of names that two bytes cannot tell apart. -/
def tooManyNames? (names : List String) : Option Error :=
  if 65536 < names.eraseDups.length then some (.countOverflow 65536 2) else none

theorem tooManyNames?_eq_none {names : List String} :
    tooManyNames? names = none ↔ names.eraseDups.length ≤ 65536 := by
  unfold tooManyNames?
  split_ifs with many
  · exact ⟨nofun, fun few => absurd few (Nat.not_le.2 many)⟩
  · exact ⟨fun _ => Nat.not_lt.1 many, fun _ => rfl⟩

theorem length_eraseDups_append (names more : List String) :
    names.eraseDups.length ≤ (names ++ more).eraseDups.length := by
  rw [List.eraseDups_append, List.length_append]
  exact Nat.le_add_right _ _

/-- Names that are too many stay so. -/
theorem tooManyNames?_append (names more : List String) :
    (tooManyNames? names).or (tooManyNames? (names ++ more)) = tooManyNames? (names ++ more) := by
  unfold tooManyNames?
  split_ifs with first second second
  · rfl
  · exact absurd (first.trans_le (length_eraseDups_append names more)) second
  · rfl
  · rfl

namespace ModuleNames

variable {table : ModuleNames} {seen : List String} {w : Writer}

theorem foretold_add {m : Module} (lists : table.Lists seen w) :
    Foretold id (tooManyNames? (seen ++ [m.topLevel]))
      (fun table w => table.Lists (seen ++ [m.topLevel]) w) (table.add m) w := by
  intro wide
  have length : seen.eraseDups.length = table.names.size := by
    rw [lists.names.length_eq, Array.length_toList]
  have few := lists.few
  -- the table holds the distinct names so far, so its guard acts at the first name too many
  have added : Foretold id (tooManyNames? (seen ++ [m.topLevel])) (fun _ _ => True)
      (table.add m) w := by
    unfold ModuleNames.add tooManyNames?
    rw [eraseDups_concat]
    dsimp only
    by_cases known : table.places.contains m.topLevel = true
    · rw [if_pos known, if_pos (lists.mem_of_contains known), if_neg (Nat.not_lt.2 few)]
      exact foretold_pure trivial
    have new : m.topLevel ∉ seen := fun h => known (lists.all _ h)
    rw [if_neg known, if_neg new, List.length_append, List.length_singleton, length]
    by_cases many : 65535 < table.names.size
    · have last : table.names.size = 65536 := by omega
      rw [if_pos many, last]
      exact foretold_throw_bind _ _
    · rw [if_neg many, if_neg (by omega)]
      exact (foretold_text _ w).none_bind fun _ _ _ _ => foretold_pure trivial
  exact added.imp (fun _ _ run _ _ => lists.add wide.sound run) wide

/-- The table is written, unless there are too many names. -/
theorem foretold_foldlM {modules : List Module} (lists : table.Lists seen w) :
    Foretold id (tooManyNames? (seen ++ modules.map Module.topLevel))
      (fun table w => table.Lists (seen ++ modules.map Module.topLevel) w)
      (modules.foldlM ModuleNames.add table) w := by
  induction modules generalizing seen table w with
  | nil =>
    rw [List.map_nil, List.append_nil, tooManyNames?, if_neg (Nat.not_lt.2 lists.few)]
    exact foretold_pure lists
  | cons m modules ih =>
    have split : seen ++ (m :: modules).map Module.topLevel =
        seen ++ [m.topLevel] ++ modules.map Module.topLevel := by
      rw [List.map_cons, List.append_assoc, List.singleton_append]
    rw [List.foldlM_cons, split, ← tooManyNames?_append]
    exact (foretold_add lists).bind fun next w₁ _ lists => ih lists

end ModuleNames

/-! ## Records -/

namespace Build

theorem foretold_write {α : Type} {refusal? : Option Error} {Q : α → Writer → Prop} {x : Write α}
    {b : Builder} (h : Foretold id refusal? Q x b.writer) :
    Foretold Builder.writer refusal? (fun a b' => Q a b'.writer ∧ b'.index = b.index) (write x) b := by
  rcases b with ⟨w, index⟩
  intro wide
  have run := h wide
  have step : (write x).run.run ⟨w, index⟩ =
      ((x.run.run w).1, (⟨(x.run.run w).2, index⟩ : Builder)) := rfl
  rw [step]
  dsimp only at run
  rcases result : x.run.run w with ⟨e | a, t⟩
  · rwa [result] at run
  · rw [result] at run
    exact ⟨run.1, run.2.1, run.2.2, rfl⟩

end Build

/-- The index holds offsets inside the heap, each of a record of twelve bytes or more. -/
structure Builder.Roomy (b : Builder) (entries : List (String × Offset)) : Prop where
  index : b.index.Holds entries
  inside : ∀ e ∈ entries, Inside e.2 b.writer
  room : 12 * entries.length ≤ b.writer.heap.size

theorem Builder.Roomy.later {b b' : Builder} {entries : List (String × Offset)}
    (h : b.Roomy entries) (index : b'.index = b.index) (kept : b.writer.Kept b'.writer) :
    b'.Roomy entries :=
  ⟨index ▸ h.index, fun e he => (h.inside e he).later kept, h.room.trans kept.size⟩

/-- A record has at least its base. -/
theorem Declaration.write_room {d : Declaration} {module : UInt16} {record : Offset} {w w' : Writer}
    (wide : w.Wide) (run : Returns (d.write module) w record w') :
    w.heap.size + 12 ≤ w'.heap.size := by
  obtain ⟨names, w₁, w₂, w₃, run₁, grew, run₃, grew', -⟩ := d.write_shape run
  have before := ((d.info.grows_writeNames.of_returns run₁).size_le).trans grew.size_le
  have format := grew.format.trans (d.info.grows_writeNames.of_returns run₁).format
  have base := Info.writeBase_size run₃
  have width : w₂.format.pointerWidth = 8 := by
    rw [Format.pointerWidth, format, wide.widths]
    rfl
  have after := grew'.size_le
  omega

namespace Build

variable {b : Builder} {module : UInt16}

theorem foretold_note (event : Event) (b : Builder) : Foretold Builder.writer none
    (fun _ b' => b'.index = b.index ∧ b.writer.Kept b'.writer) (write (Write.note event)) b :=
  ((foretold_write (Write.foretold_note event b.writer)).imp fun _ _ _ kept h => ⟨h.2, kept⟩)

/-- A name that is added is the last entry. -/
theorem foretold_addName {name : String} {o : Offset} {entries : List (String × Offset)}
    (index : b.index.Holds entries) (inside : ∀ e ∈ entries, Inside e.2 b.writer)
    (here : Inside o b.writer) (room : 12 * (entries.length + 1) ≤ b.writer.heap.size) :
    Foretold Builder.writer none (fun _ b => b.Roomy (entries ++ [(name, o)])) (addName name o) b := by
  obtain ⟨log, -, run⟩ := addName_run name o b
  refine foretold_of_returns run ⟨fun wide => ⟨wide.widths, wide.sound⟩, Nat.le_refl _⟩ ⟨?_, ?_, ?_⟩
  · exact index.add name o
  · exact List.forall_mem_append.2 ⟨inside, List.forall_mem_singleton.2 here⟩
  · rwa [List.length_append, List.length_singleton]

theorem foretold_declare {d : Declaration} (sized : d.Sized) (roomy : ∃ entries, b.Roomy entries) :
    Foretold Builder.writer d.refusal? (fun _ b => ∃ entries, b.Roomy entries)
      (declare module d) b := by
  intro wide
  obtain ⟨entries, roomy⟩ := roomy
  have written : Foretold Builder.writer d.refusal? (fun record b' => b'.index = b.index ∧
      Inside record b'.writer ∧ b.writer.heap.size + 12 ≤ b'.writer.heap.size)
      (write (d.write module)) b :=
    (foretold_write (Declaration.foretold_write sized b.writer)).imp fun _ _ run _ here =>
      ⟨here.2, here.1, Declaration.write_room wide (returns_write.1 run).1⟩
  refine (written.bind_none fun record b₁ kept₁ ⟨index, here, more⟩ => ?_) wide
  have room : 12 * (entries.length + 1) ≤ b₁.writer.heap.size := by
    have := roomy.room
    omega
  refine (foretold_addName (index ▸ roomy.index) (fun e he => (roomy.inside e he).later kept₁) here
    room).none_bind fun _ b₂ _ roomy => ?_
  refine (foretold_note _ b₂).none_bind fun _ b₃ _ ⟨index, kept⟩ => ?_
  exact foretold_pure ⟨_, roomy.later index kept⟩

/-- Each bucket is written, and each slot is inside the heap. -/
theorem foretold_writeIndex {entries : List (String × Offset)} (roomy : b.Roomy entries) :
    Foretold Builder.writer none (fun slots b' => (∀ o ∈ slots, Inside o b'.writer) ∧
      b'.Roomy entries) writeIndex b := by
  have few : entries.length ≤ b.writer.heap.size := by
    have := roomy.room
    omega
  have chains : ∀ chain ∈ b.index.buckets.toList, chain.Sublist entries := by
    intro chain h
    rw [roomy.index.toList_eq] at h
    obtain ⟨_, -, rfl⟩ := List.mem_map.1 h
    exact List.filter_sublist
  have chain : ∀ chain ∈ b.index.buckets.toList, ∀ w, b.writer.Kept w →
      Foretold id none Inside (NameIndex.writeChain chain) w := by
    intro chain h w kept
    have all : AllInside chain.length (chain.map Prod.snd) w := by
      refine ⟨List.length_map _, fun o ho => ?_⟩
      obtain ⟨e, he, rfl⟩ := List.mem_map.1 ho
      exact (roomy.inside e ((chains chain h).subset he)).later kept
    exact foretold_arrayOrNull all (.inr (((chains chain h).length_le.trans few).trans kept.size))
  have write : Foretold id none (fun slots w => ∀ o ∈ slots, Inside o w) b.index.write b.writer := by
    have slots := foretold_mapM chain
    rw [List.findSome?_eq_none_iff.2 fun _ _ => rfl] at slots
    refine slots.none_bind fun slots w₁ _ h => ?_
    refine (Write.foretold_note _ w₁).none_bind fun _ w₂ kept _ => ?_
    exact foretold_pure fun o ho => (h.inside o ho).later kept
  unfold writeIndex
  refine (foretold_get b).none_bind ?_
  rintro _ _ - ⟨rfl, rfl⟩
  exact (foretold_write write).imp fun _ _ _ kept h => ⟨h.1, roomy.later h.2 kept⟩

end Build

/-! ## Builds -/

/-- The refusal of what a module lists. -/
def refusalOfListed? : Module × Option Declaration → Option Error
  | (m, none) => some (.broken (.missingDeclaration m.name))
  | (_, some d) => d.refusal?

/-- The refusal of a forest: its top-level names are counted first, then what its modules list is
looked at in order. -/
def Forest.refusal? (forest : Forest) : Option Error :=
  (tooManyNames? (forest.modules.toList.map Module.topLevel)).or
    (forest.listed.findSome? refusalOfListed?)

section

variable {forest : Forest} {table : ModuleNames} {b : Builder}
  (sized : ∀ listed ∈ forest.listed, ∀ d ∈ listed.2, d.Sized)

include sized

theorem foretold_declareModule {m : Module} (hm : m ∈ forest.modules.toList)
    (here : ∃ place, table.place? m.topLevel = some place) (roomy : ∃ entries, b.Roomy entries) :
    Foretold Builder.writer
      ((m.declarations.toList.map fun id => (m, forest.get? id)).findSome? refusalOfListed?)
      (fun _ b => ∃ entries, b.Roomy entries) (declareModule forest table m) b := by
  obtain ⟨place, here⟩ := here
  unfold declareModule
  rw [here, List.findSome?_map]
  refine Foretold.forM (fun id hid b' roomy => ?_) roomy
  have listed : (m, forest.get? id) ∈ forest.listed :=
    List.mem_flatMap.2 ⟨m, hm, List.mem_map_of_mem hid⟩
  dsimp only [Function.comp_apply]
  cases found : forest.get? id with
  | none => exact foretold_throw _
  | some d =>
    rw [found] at listed
    exact (Build.foretold_declare (sized _ listed d rfl) roomy).bind_none fun _ _ _ roomy =>
      foretold_pure roomy

theorem foretold_declareModules {modules : List Module} (sub : modules ⊆ forest.modules.toList)
    (here : ∀ m ∈ modules, ∃ place, table.place? m.topLevel = some place)
    (roomy : ∃ entries, b.Roomy entries) :
    Foretold Builder.writer
      ((modules.flatMap fun m => m.declarations.toList.map fun id => (m, forest.get? id)).findSome?
        refusalOfListed?)
      (fun _ b => ∃ entries, b.Roomy entries) (modules.forM (declareModule forest table)) b := by
  have flat : (modules.flatMap fun m => m.declarations.toList.map fun id =>
      (m, forest.get? id)).findSome? refusalOfListed? = modules.findSome? fun m =>
        (m.declarations.toList.map fun id => (m, forest.get? id)).findSome? refusalOfListed? := by
    clear sub here
    induction modules with
    | nil => rfl
    | cons m modules ih => rw [List.flatMap_cons, List.findSome?_append, findSome?_cons_eq_or, ih]
  rw [flat]
  exact Foretold.forM (fun m hm b' roomy => foretold_declareModule sized (sub hm) (here m hm) roomy)
    roomy

end

/-- The offsets in the parts are inside the heap, and every declaration has a record of twelve bytes or
more. -/
structure Parts.Roomy (parts : Parts) : Prop where
  modules : ∀ o ∈ parts.modules, o ≤ parts.heap.size
  slots : ∀ o ∈ parts.slots, o ≤ parts.heap.size
  room : 12 * parts.declarations ≤ parts.heap.size

/-- A build goes as is foretold. -/
theorem foretold_buildParts {forest : Forest} {w : Writer} {index : NameIndex}
    (sized : ∀ listed ∈ forest.listed, ∀ d ∈ listed.2, d.Sized) (empty : index.Holds []) :
    Foretold Builder.writer forest.refusal? (fun parts b => parts.Roomy ∧ parts.heap = b.writer.heap)
      (buildParts forest) ⟨w, index⟩ := by
  unfold Forest.refusal? buildParts
  have names : Foretold id (tooManyNames? (forest.modules.toList.map Module.topLevel))
      (fun table w => table.Lists (forest.modules.toList.map Module.topLevel) w)
      (ModuleNames.write forest) w :=
    ModuleNames.foretold_foldlM (ModuleNames.lists_empty w)
  refine (Build.foretold_write names).bind fun table b₁ _ written => ?_
  obtain ⟨lists, same⟩ := written
  have here : ∀ m ∈ forest.modules.toList, ∃ place, table.place? m.topLevel = some place := by
    intro m hm
    have known := lists.all _ (List.mem_map_of_mem hm)
    rw [Std.HashMap.contains_eq_isSome_getElem?, Option.isSome_iff_exists] at known
    obtain ⟨i, known⟩ := known
    exact ⟨UInt16.ofNat i, by rw [ModuleNames.place?, known]; rfl⟩
  have start : ∃ entries, b₁.Roomy entries :=
    ⟨[], same ▸ empty, List.forall_mem_nil _, Nat.zero_le _⟩
  refine (foretold_declareModules sized (List.Subset.refl _) here start).bind_none
    fun _ b₂ kept₂ declared => ?_
  obtain ⟨entries, roomy⟩ := declared
  refine (Build.foretold_writeIndex roomy).none_bind fun slots b₃ kept₃ indexed => ?_
  obtain ⟨inside, roomy⟩ := indexed
  refine (foretold_get b₃).none_bind ?_
  rintro _ _ - ⟨rfl, rfl⟩
  refine foretold_pure ⟨⟨fun o ho => ?_, inside, ?_⟩, rfl⟩
  · obtain ⟨name, -, stores⟩ := exists_left_of_forall₂ lists.names ho
    exact ((inside_of_stores stores).later kept₂).later kept₃
  · have room := roomy.room
    rwa [← (List.length_map Prod.snd), List.length_map, ← roomy.index.size] at room

/-! ## Containers -/

/-- Parts that are in one block of memory fit their fields of eight bytes. -/
theorem Parts.Roomy.fit {parts : Parts} (roomy : parts.Roomy)
    (fits : parts.heap.size ≤ Heap.largestBlock) (widths : parts.format.toWidths = ⟨8, 8⟩)
    (few : parts.modules.length ≤ 65536)
    (buckets : parts.slots.length = bucketCountFor parts.declarations) : parts.Fit := by
  -- there are fewer declarations than bytes, and not many more buckets than declarations
  have room := roomy.room
  have count := (bucketCountFor_bounds parts.declarations).2
  rw [← buckets] at count
  have offset : parts.format.largestOffset = 0xFFFFFFFFFFFFFFFF := by
    rw [widths]
    decide
  have largest : parts.format.largestCount = 0xFFFFFFFFFFFFFFFF := by
    rw [widths]
    decide
  unfold loadTarget at count
  unfold Heap.largestBlock at fits
  have heap : parts.heap.size ≤ parts.format.largestOffset := by omega
  refine ⟨⟨by omega, fun o ho => (roomy.modules o ho).trans heap⟩,
    ⟨by omega, fun o ho => (roomy.slots o ho).trans heap⟩, fun place h => ?_⟩
  rw [Parts.places, parts.header_eq, widths] at h
  have last : place ≤ 26 + (8 + 8 * parts.modules.length) + (8 + 8 * parts.slots.length) := by
    simp only [Header.counting, List.mem_cons, List.not_mem_nil, or_false] at h
    obtain rfl | rfl | rfl := h
    · exact (Nat.le_add_right _ _).trans (Nat.le_add_right _ _)
    · exact Nat.le_add_right _ _
    · exact le_rfl
  omega

/-- Eight bytes for offsets and eight for counts. -/
def Format.eight : Format := ⟨⟨8, 8⟩, by decide⟩

/-- The builder that a build begins with. -/
def Forest.start (forest : Forest) (format : Format) : Builder :=
  ⟨{ format }, .emptyFor forest.storable.length⟩

/-- The heap that a build leaves, also one that stops. -/
def Forest.heap (forest : Forest) (format : Format) : Heap :=
  ((buildParts forest).run.run (forest.start format)).2.writer.heap

/-- What a forest in memory is: every list of texts or types of a declaration is in one block of memory,
and so is the heap that is built for it. -/
structure Forest.Sized (forest : Forest) : Prop where
  declarations : ∀ listed ∈ forest.listed, ∀ d ∈ listed.2, d.Sized
  heap : (forest.heap .eight).size ≤ Heap.largestBlock

theorem Forest.build_eight (forest : Forest) : forest.build ⟨8, 8⟩ =
    (((buildParts forest).run.run (forest.start .eight)).1,
      ((buildParts forest).run.run (forest.start .eight)).2.writer.log) := rfl

/-- A save goes as is foretold. -/
theorem Forest.foretold_toBytes {forest : Forest} (sized : forest.Sized) :
    match forest.refusal? with
    | none => ∃ b, forest.toBytes ⟨8, 8⟩ = .ok b
    | some e => forest.toBytes ⟨8, 8⟩ = .error e := by
  have told : Foretold Builder.writer forest.refusal? _ (buildParts forest) (forest.start .eight) :=
    foretold_buildParts sized.declarations (NameIndex.holds_empty _)
  have fresh : Writer.empty ⟨8, 8⟩ = .ok { format := .eight } := rfl
  have run := told ⟨rfl, Writer.sound_empty fresh⟩
  have fits := sized.heap
  have build := forest.build_eight
  unfold Forest.heap at fits
  rcases result : (buildParts forest).run.run (forest.start .eight) with ⟨e | parts, b⟩
  · rw [result] at run fits build
    -- a run that is not refused stops only past one block of memory
    rw [run.resolve_right (Nat.not_lt.2 fits)]
    show Except.map _ (forest.save ⟨8, 8⟩ .empty).result = _
    rw [Forest.save_of_error build]
    rfl
  · rw [result] at run fits build
    obtain ⟨allowed, -, roomy, heap⟩ := run
    rw [allowed]
    have counts := Forest.counts_of_build build
    obtain ⟨_, _, -, widths, -⟩ := Forest.build_returns build
    have names : forest.topLevelNames.length ≤ 65536 :=
      tooManyNames?_eq_none.1 (Option.or_eq_none_iff.1 allowed).1
    have fit := roomy.fit (heap ▸ fits) widths (counts.modules ▸ names)
      (counts.slots.trans (by rw [counts.declarations]))
    exact ⟨parts.bytes.toArray, Forest.toBytes_eq_ok.2 ⟨parts, _, build, fit, rfl⟩⟩

/-- What the fields of a container can hold. -/
structure Forest.Representable (forest : Forest) : Prop where
  names : forest.topLevelNames.length ≤ 65536
  declarations : ∀ listed ∈ forest.listed, ∃ d, listed.2 = some d ∧ d.Representable

theorem refusalOfListed?_eq_none {listed : Module × Option Declaration} :
    refusalOfListed? listed = none ↔ ∃ d, listed.2 = some d ∧ d.Representable := by
  obtain ⟨m, _ | d⟩ := listed
  · exact ⟨nofun, fun ⟨_, found, _⟩ => nomatch found⟩
  · refine Declaration.refusal?_eq_none.trans ⟨fun h => ⟨d, rfl, h⟩, fun ⟨_, found, h⟩ => ?_⟩
    exact Option.some.inj found ▸ h

theorem Forest.refusal?_eq_none {forest : Forest} :
    forest.refusal? = none ↔ forest.Representable := by
  rw [Forest.refusal?, Option.or_eq_none_iff, tooManyNames?_eq_none, List.findSome?_eq_none_iff]
  exact ⟨fun h => ⟨h.1, fun l hl => refusalOfListed?_eq_none.1 (h.2 l hl)⟩,
    fun h => ⟨h.names, fun l hl => refusalOfListed?_eq_none.2 (h.declarations l hl)⟩⟩

/-- What a module lists is missing or refused itself. -/
inductive RefusesListed (m : Module) : Option Declaration → Error → Prop
  | missing : RefusesListed m none (.broken (.missingDeclaration m.name))
  | offends {d : Declaration} {e : Error} (offends : d.Offends e) : RefusesListed m (some d) e

/-- What is wrong with a forest, and the error that reports it: its names, or else the first position
that a module lists and that is missing or refused. -/
inductive Forest.Refuses (forest : Forest) : Error → Prop
  | names (many : 65536 < forest.topLevelNames.length) : Refuses forest (.countOverflow 65536 2)
  | listed {m : Module} {d? : Option Declaration} {e : Error}
      {before after : List (Module × Option Declaration)}
      (few : forest.topLevelNames.length ≤ 65536)
      (visited : forest.listed = before ++ (m, d?) :: after)
      (earlier : ∀ l ∈ before, ∃ d, l.2 = some d ∧ d.Representable)
      (refused : RefusesListed m d? e) : Refuses forest e

/-- A forest is refused for what is wrong with it. -/
theorem Forest.refuses_of_refusal {forest : Forest} {e : Error} (h : forest.refusal? = some e) :
    forest.Refuses e := by
  obtain names | ⟨few, h⟩ := Option.or_eq_some_iff.1 h
  · unfold tooManyNames? at names
    split_ifs at names with many
    obtain rfl := Option.some.inj names
    exact .names many
  · obtain ⟨before, ⟨m, d?⟩, after, visited, refused, earlier⟩ := List.findSome?_eq_some_iff.1 h
    refine .listed (tooManyNames?_eq_none.1 few) visited
      (fun l hl => refusalOfListed?_eq_none.1 (earlier l hl)) ?_
    cases d? with
    | none =>
      obtain rfl := Option.some.inj refused
      exact .missing
    | some d => exact .offends (Declaration.offends_of_refusal refused)

/-- **Exactly what the fields cannot hold is refused.** With eight bytes for every offset and count, a
forest has a container if and only if it has at most 65536 top-level names and every position that a
module lists leads to a declaration that is no category, whose types and initializers fit their fields.
Otherwise the save fails as `Forest.refusal?` says, and in no other way: for the names, or for the first
listed declaration that is missing or is refused. -/
theorem refused_exactly {forest : Forest} (sized : forest.Sized) :
    ((∃ b, forest.toBytes ⟨8, 8⟩ = .ok b) ↔ forest.Representable) ∧
      (∀ e, forest.toBytes ⟨8, 8⟩ = .error e ↔ forest.refusal? = some e) ∧
      ∀ e, forest.toBytes ⟨8, 8⟩ = .error e → forest.Refuses e := by
  have told := Forest.foretold_toBytes sized
  rw [← Forest.refusal?_eq_none]
  cases refusal : forest.refusal? with
  | none =>
    rw [refusal] at told
    obtain ⟨b, saved⟩ := told
    have stops (e : Error) : forest.toBytes ⟨8, 8⟩ ≠ .error e :=
      fun stop => nomatch saved.symm.trans stop
    exact ⟨⟨fun _ => rfl, fun _ => ⟨b, saved⟩⟩, fun e => ⟨fun stop => (stops e stop).elim, nofun⟩,
      fun e stop => (stops e stop).elim⟩
  | some first =>
    rw [refusal] at told
    refine ⟨⟨fun ⟨b, saved⟩ => (nomatch told.symm.trans saved), nofun⟩, fun e => ?_,
      fun e stop => ?_⟩
    · rw [told, Except.error.injEq, Option.some.injEq]
    · obtain rfl := Except.error.inj (told.symm.trans stop)
      exact Forest.refuses_of_refusal refusal

theorem Views.sized : (Views.forest "View").Sized where
  declarations listed h d hd := by
    obtain rfl | rfl := Views.eq_of_listed h hd
    · exact ⟨by decide, by decide⟩
    · exact ⟨by decide, by decide⟩
  heap := by
    -- the heap grows by a factor of eight at most over the one that is built with a byte for each pointer
    have wide : Views.format.Widens .eight := ⟨by decide, rfl⟩
    have start : Builder.Widens Views.format .eight ⟨{ format := Views.format }, .emptyFor 2⟩
        ((Views.forest "View").start .eight) := ⟨wide.widens_start, NameIndex.widens_empty _⟩
    obtain ⟨_, b, run, -, alike⟩ := widens_buildParts wide (Views.forest "View") start
      (Views.returns_build Views.returns_shared Views.returns_index rfl)
    have stretch : Stretch Views.format .eight Views.last.heap.size b.writer.heap.size :=
      alike.writer.size
    rw [Views.size_last] at stretch
    have ratio : b.writer.heap.size * 1 ≤ 140 * 8 := stretch.ratio
    unfold Forest.heap
    rw [run]
    calc b.writer.heap.size = b.writer.heap.size * 1 := (Nat.mul_one _).symm
      _ ≤ 140 * 8 := ratio
      _ ≤ Heap.largestBlock := by decide

theorem Views.representable : (Views.forest "View").Representable where
  names := by decide
  declarations := by
    have view : Views.view.refusal? = none := by
      show Members.refusal? _ = none
      unfold Members.refusal? Members.misplaced? Members.sorted sortByPublicName sortNames
      simp only [List.mergeSort_nil, List.mergeSort_singleton]
      decide
    have shared : (Views.shared "View").refusal? = none := by decide
    rw [Views.listed_eq]
    exact List.forall_mem_cons.2 ⟨⟨_, rfl, Declaration.refusal?_eq_none.1 view⟩,
      List.forall_mem_singleton.2 ⟨_, rfl, Declaration.refusal?_eq_none.1 shared⟩⟩

namespace Sample

open Write

/-- A variable that is a block with a result and 255 parameters. -/
def block : Declaration where
  info := { name := "f" }
  body := .global (.callable .block (List.replicate 256 (.scalar .void)))

/-- A module `M` that lists these positions. Only the first leads to a declaration, the block. -/
def crowded (ids : Array DeclId) : Forest where
  declarations := ⟨#[block]⟩
  modules := #[⟨"M", ids⟩]

/-- The writer after the names of the modules. -/
def crowdedModules : Writer := ({ format := .eight } : Writer).intern "M"

/-- The writer at the count of the block. -/
def crowdedCount : Writer := (crowdedModules.intern "f").append [29]

theorem returns_scalars (kind : Scalar) (n : Nat) (w : Writer) :
    Returns (writePartsOfTypes (List.replicate n (.scalar kind))) w [] w := by
  induction n with
  | zero => rfl
  | succ n ih =>
    rw [List.replicate_succ, writePartsOfTypes]
    exact .bind rfl (.bind ih rfl)

theorem stops_block : Stops (block.write 0) crowdedModules (.countOverflow 256 1) crowdedCount := by
  have new : crowdedModules.interned["f"]? = none := by
    simp [crowdedModules, Writer.intern]
  have names : Returns block.info.writeNames crowdedModules crowdedModules.heap.size
      (crowdedModules.intern "f") := returns_text_new new
  have count : Stops (writeSmallCount (List.replicate 256 (TypeExpr.scalar .void)).length)
      crowdedCount (.countOverflow 256 1) crowdedCount := by
    rw [List.length_replicate]
    exact stops_throw.2 ⟨rfl, rfl⟩
  have node : Stops (TypeExpr.writeNode (.callable .block (List.replicate 256 (.scalar .void))) [])
      (crowdedModules.intern "f") (.countOverflow 256 1) crowdedCount := by
    unfold TypeExpr.writeNode
    exact stops_bind.2 (.inr ⟨_, _, rfl, stops_bind.2 (.inl count)⟩)
  have type : Stops (TypeExpr.write (.callable .block (List.replicate 256 (.scalar .void))))
      (crowdedModules.intern "f") (.countOverflow 256 1) crowdedCount := by
    unfold TypeExpr.write TypeExpr.writeParts
    exact stops_bind.2 (.inr ⟨_, _, returns_scalars .void 256 _,
      stops_bind.2 (.inr ⟨_, _, rfl, stops_bind.2 (.inl node)⟩)⟩)
  exact stops_bind.2 (.inr ⟨_, _, names, stops_bind.2 (.inl type)⟩)

section

variable {ids : Array DeclId} {e : Error} {w : Writer} {index : NameIndex}
  (stop : Stops (declareModule (crowded ids) table ⟨"M", ids⟩)
    ⟨crowdedModules, .emptyFor (crowded ids).storable.length⟩ e ⟨w, index⟩)

include stop

theorem stops_crowded : Stops (buildParts (crowded ids)) ((crowded ids).start .eight) e ⟨w, index⟩ := by
  refine stops_bind.2 (.inr ⟨_, ⟨_, _⟩, Build.returns_write.2 ⟨returns_names rfl .eight, rfl⟩, ?_⟩)
  exact stops_bind.2 (.inl (stops_bind.2 (.inl stop)))

theorem sized_crowded (small : w.heap.size ≤ Heap.largestBlock) : (crowded ids).Sized where
  declarations listed h d hd := by
    obtain ⟨m, -, h⟩ := List.mem_flatMap.1 h
    obtain ⟨id, -, rfl⟩ := List.mem_map.1 h
    obtain rfl : d = block := List.mem_singleton.1 (Array.mem_toList_iff.2 (Array.mem_of_getElem? hd))
    exact ⟨by decide +kernel, by decide +kernel⟩
  heap := by
    unfold Forest.heap
    rwa [stops_crowded stop]

end

theorem sized_blockFirst : (crowded #[0, 1]).Sized := by
  have stop : Stops (declareModule (crowded #[0, 1]) table ⟨"M", #[0, 1]⟩)
      ⟨crowdedModules, .emptyFor 1⟩ (.countOverflow 256 1) ⟨crowdedCount, .emptyFor 1⟩ := by
    unfold declareModule
    rw [place_topLevel]
    exact stops_bind.2 (.inl (stops_bind.2 (.inl (Build.declare_stops stops_block))))
  exact sized_crowded stop (by decide)

theorem sized_missingFirst : (crowded #[1, 0]).Sized := by
  have stop : Stops (declareModule (crowded #[1, 0]) table ⟨"M", #[1, 0]⟩)
      ⟨crowdedModules, .emptyFor 1⟩ (.broken (.missingDeclaration "M"))
      ⟨crowdedModules, .emptyFor 1⟩ := by
    unfold declareModule
    rw [place_topLevel]
    exact stops_bind.2 (.inl (stops_throw.2 ⟨rfl, rfl⟩))
  exact sized_crowded stop (by decide)

end Sample

/-- The class and the variable have a container. A module is refused for what it lists first, a block
that takes more parameters than one byte can count or a declaration that is not there. -/
theorem refused_exactly_samples :
    (∃ b, (Views.forest "View").toBytes ⟨8, 8⟩ = .ok b) ∧
      (Sample.crowded #[0, 1]).toBytes ⟨8, 8⟩ = .error (.countOverflow 256 1) ∧
      (Sample.crowded #[1, 0]).toBytes ⟨8, 8⟩ = .error (.broken (.missingDeclaration "M")) := by
  have crowded : (Sample.crowded #[0, 1]).refusal? = some (.countOverflow 256 1) := by
    decide +kernel
  have missing : (Sample.crowded #[1, 0]).refusal? = some (.broken (.missingDeclaration "M")) := rfl
  exact ⟨(refused_exactly Views.sized).1.2 Views.representable,
    ((refused_exactly Sample.sized_blockFirst).2.1 _).2 crowded,
    ((refused_exactly Sample.sized_missingFirst).2.1 _).2 missing⟩

end DeclArchive
