import DeclArchive.Container.Load
import DeclArchive.Proofs.Container.Save
import DeclArchive.Proofs.NameIndex

/-!
# Opening what was saved

The bytes of a container are read as the header, the names of the modules and the slots that were saved,
and the heap (`Parts.parse_bytes`). A name is looked up in the chain of its bucket; if the slots lead to
the buckets of an index, the record found is the first one there that shows the name, which is as much of
the name it was registered under as can be stored (`Container.lookup_eq`).
-/

namespace DeclArchive

/-! ## Places -/

namespace Parts

variable (parts : Parts)

theorem drop_heap : parts.bytes.drop parts.header.heap = parts.heap.bytes.toList := by
  refine List.drop_left' ?_
  rw [List.length_append, List.length_append, parts.length_front]
  rfl

theorem length_bytes : parts.bytes.length = parts.header.heap + parts.heap.size := by
  rw [bytes, List.length_append, List.length_append, List.length_append, parts.length_front,
    Array.length_toList]
  rfl

variable {parts} {b : Array UInt8} (same : b.toList = parts.bytes)

include same

/-- The front, the two tables and the heap are where the header says. -/
theorem has_sections :
    Image.Has ⟨b, parts.format⟩ 2 (Image.pointerRun parts.format parts.places) ∧
      Image.Has ⟨b, parts.format⟩ parts.header.moduleTable
        (sectionRun parts.format parts.modules) ∧
      Image.Has ⟨b, parts.format⟩ parts.header.globalTable
        (sectionRun parts.format parts.slots) := by
  have all : Image.Has ⟨b, parts.format⟩ 0 parts.bytes := by
    show parts.bytes <+: b.toList.drop 0
    rw [same]
    exact List.prefix_rfl
  obtain ⟨tables, -⟩ := Image.has_append.1 all
  obtain ⟨front, slots⟩ := Image.has_append.1 tables
  obtain ⟨front, modules⟩ := Image.has_append.1 front
  obtain ⟨-, places⟩ := @Image.has_append _ _ [_, _] _ |>.1 front
  rw [List.length_append, parts.length_front, Nat.zero_add] at slots
  rw [parts.length_front, Nat.zero_add] at modules
  exact ⟨places, modules, slots⟩

theorem heap_eq : b.extract parts.header.heap b.size = parts.heap.bytes := by
  apply Array.toList_inj.1
  rw [Array.toList_extract, List.extract, same, drop_heap, List.take_of_length_le]
  rw [← Array.length_toList, same, length_bytes]
  exact Nat.le_of_eq (Nat.add_sub_cancel_left ..).symm

end Parts

/-! ## Opening -/

theorem Format.check_toWidths (f : Format) : f.toWidths.check = .ok f := by
  unfold Widths.check
  rw [dif_pos f.valid]

/-- The heap, as it is read. -/
def Parts.image (parts : Parts) : Image := ⟨parts.heap.bytes, parts.format⟩

/-- The container with these parts, once it is opened. -/
def Parts.opened (parts : Parts) (names : List String) : Container :=
  ⟨parts.header, parts.image, names.toArray, parts.slots.toArray⟩

/-- **Opening a container finds what was saved.** -/
theorem Parts.parse_bytes {parts : Parts} {b : Array UInt8} {names : List String} (fit : parts.Fit)
    (same : b.toList = parts.bytes) (fits : b.size ≤ Heap.largestBlock)
    (texts : parts.image.texts parts.modules = .ok names) :
    Container.parse b = .ok (parts.opened names) := by
  have fits : Image.Fits ⟨b, parts.format⟩ := fits
  obtain ⟨places, modules, slots⟩ := has_sections same
  have first : b[0]? = some parts.format.pointer := by
    rw [← Array.getElem?_toList, same]
    rfl
  have second : b[1]? = some parts.format.count := by
    rw [← Array.getElem?_toList, same]
    rfl
  have file : Image.ofBytes b parts.format.toWidths = .ok ⟨b, parts.format⟩ := by
    rw [Image.ofBytes, Format.check_toWidths]
    rfl
  obtain ⟨le₁, others⟩ := List.forall_mem_cons.1 fit.places
  obtain ⟨le₂, others⟩ := List.forall_mem_cons.1 others
  obtain ⟨le₃, -⟩ := List.forall_mem_cons.1 others
  obtain ⟨pointer₁, past₁, places⟩ := Image.pointer_of_run fits le₁ places
  obtain ⟨pointer₂, past₂, places⟩ := Image.pointer_of_run fits le₂ places
  obtain ⟨pointer₃, -, -⟩ := Image.pointer_of_run fits le₃ places
  have inside : ¬ b.size ≤ parts.header.heap := by
    have pos := parts.heap.size_pos
    rw [← Array.length_toList, same, parts.length_bytes]
    omega
  have moduleTable := Image.array_of_has fits fit.modules.count fit.modules.pointers modules
  have globalTable := Image.array_of_has fits fit.slots.count fit.slots.pointers slots
  have heap : Image.tail ⟨b, parts.format⟩ parts.header.heap = .ok parts.image := by
    unfold Image.tail Parts.image
    rw [if_neg fun past => inside past.le, ← heap_eq same]
    rfl
  unfold Container.parse
  rw [first, second]
  dsimp only
  rw [file, Except.ok_bind, pointer₁, Except.ok_bind, past₁, Except.ok_bind, pointer₂,
    Except.ok_bind, past₂, Except.ok_bind, pointer₃, Except.ok_bind, if_neg inside, heap,
    Except.ok_bind, moduleTable, Except.ok_bind, texts, Except.ok_bind, globalTable]
  rfl

/-! ## Lookup -/

/-- Among so many buckets, a lookup of `name` comes upon a record that was registered under
`registered`, and takes it: the names are in one bucket, and the record shows `name`. -/
def Meets (capacity : Nat) (name registered : String) : Prop :=
  bucketOf registered capacity = bucketOf name capacity ∧ Utf8.upToNul registered = name

instance (capacity : Nat) (name registered : String) : Decidable (Meets capacity name registered) :=
  inferInstanceAs (Decidable (_ ∧ _))

/-- A name without `U+0000` is met where it was registered, and nowhere else. -/
theorem meets_iff {capacity : Nat} {name registered : String} (free : Utf8.NulFree registered) :
    Meets capacity name registered ↔ registered = name := by
  unfold Meets
  rw [Utf8.upToNul_eq_self free]
  constructor
  · exact And.right
  · rintro rfl
    exact ⟨rfl, rfl⟩

namespace Container

variable {c : Container} {t : NameIndex} {entries : List (String × Offset)}

/-- The records of a chain are compared one by one, and the first that shows the name is found. -/
theorem firstNamed_eq {chain : List (String × Offset)}
    (named : ∀ e ∈ chain, ∃ internal, c.heap.names e.2 = .ok (Utf8.upToNul e.1, internal))
    (name : String) :
    c.firstNamed name (chain.map Prod.snd) =
      .ok ((chain.find? fun e => Utf8.upToNul e.1 = name).map Prod.snd) := by
  induction chain with
  | nil => rfl
  | cons e chain ih =>
    obtain ⟨⟨internal, here⟩, others⟩ := List.forall_mem_cons.1 named
    rw [List.map_cons, firstNamed, here, Except.ok_bind]
    dsimp only
    by_cases same : Utf8.upToNul e.1 = name
    · rw [if_pos same, List.find?_cons, decide_eq_true same]
      rfl
    · rw [if_neg same, List.find?_cons, decide_eq_false same, ih others]

section

variable (holds : t.Holds entries) (slots : List.Forall₂ (fun chain slot =>
  c.heap.arrayOrEmpty slot = .ok (chain.map Prod.snd)) t.buckets.toList c.slots.toList)

include slots

theorem size_slots : c.slots.size = t.capacity := by
  rw [← Array.length_toList, ← slots.length_eq, Array.length_toList]
  rfl

/-- The slot of a name leads to its chain. -/
theorem slot_eq (name : String) :
    ∃ slot, c.slot name = .ok slot ∧ c.heap.arrayOrEmpty slot = .ok ((t.chain name).map Prod.snd) := by
  have size := size_slots slots
  have ne : ¬ c.slots.size = 0 := by
    rw [size]
    exact t.buckets_pos.ne'
  have lt : bucketOf name t.capacity < t.buckets.toList.length := by
    rw [Array.length_toList]
    exact bucketOf_lt t.buckets_pos name
  have lt' : bucketOf name t.capacity < c.slots.toList.length := slots.length_eq ▸ lt
  have read := slots.get lt lt'
  have found : c.slots[bucketOf name t.capacity]? =
      some (c.slots.toList.get ⟨bucketOf name t.capacity, lt'⟩) := by
    rw [← Array.getElem?_toList, List.getElem?_eq_getElem lt']
    rfl
  refine ⟨_, ?_, read⟩
  rw [slot, bucketIn, if_neg ne, Except.ok_bind, size, found]
  rfl

include holds

/-- All registered records are found, each once. -/
theorem records_eq : ∃ os, c.records = .ok os ∧ os.Perm (entries.map Prod.snd) := by
  have read : c.slots.toList.mapM c.heap.arrayOrEmpty =
      .ok (t.buckets.toList.map fun chain => chain.map Prod.snd) :=
    Except.mapM_eq_ok (List.forall₂_map_right_iff.2 slots.flip)
  refine ⟨t.buckets.toList.flatten.map Prod.snd, ?_, holds.flatten_perm.map _⟩
  rw [records, read, Except.ok_bind, List.map_flatten]
  rfl

/-- A lookup finds the first record that it meets. -/
theorem lookup_eq
    (named : ∀ e ∈ entries, ∃ internal, c.heap.names e.2 = .ok (Utf8.upToNul e.1, internal))
    (name : String) :
    c.lookup name = .ok ((entries.find? fun e => Meets t.capacity name e.1).map Prod.snd) := by
  have some : ¬ c.slots.isEmpty = true := by
    rw [Array.isEmpty_iff_size_eq_zero, size_slots slots]
    exact t.buckets_pos.ne'
  obtain ⟨slot, here, read⟩ := slot_eq slots name
  have chain := holds.chain_eq name
  have named' : ∀ e ∈ t.chain name,
      ∃ internal, c.heap.names e.2 = .ok (Utf8.upToNul e.1, internal) := by
    intro e he
    rw [chain] at he
    exact named e (List.mem_of_mem_filter he)
  have first : (t.chain name).find? (fun e => Utf8.upToNul e.1 = name) =
      entries.find? fun e => Meets t.capacity name e.1 := by
    rw [chain, List.find?_filter]
    congr 1
    funext e
    rw [decide_eq_decide, decide_eq_true_iff, decide_eq_true_iff]
    rfl
  rw [lookup, if_neg some, here, Except.ok_bind, read, Except.ok_bind, firstNamed_eq named' name, first]

end

end Container

end DeclArchive
