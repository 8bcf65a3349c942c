import DeclArchive.Proofs.NameIndex
import Mathlib.Algebra.Ring.Nat

/-!
# The name index as a list of entries

An index is what became of an empty one by adding entries (`NameIndex.ofEntries`). To look a name up in it is
to look for the first entry of that name (`NameIndex.Holds.find?_eq`). Its stored form has one slot for each
bucket and, one behind the other, an array for each bucket that is not empty (`NameIndex.returns_write`); the
arrays hold the offsets of all entries, each once (`index_keeps_entries`).
-/

namespace DeclArchive

namespace NameIndex

variable {t : NameIndex} {entries : List (String × Offset)}

/-! ## Adding entries -/

/-- The index to which these entries were added, in this order. -/
def ofEntries (capacity : Nat) (entries : List (String × Offset)) : NameIndex :=
  entries.foldl (fun t e => t.add e.1 e.2) (empty capacity)

theorem Holds.foldl_add (h : t.Holds entries) (more : List (String × Offset)) :
    (more.foldl (fun t e => t.add e.1 e.2) t).Holds (entries ++ more) := by
  induction more generalizing t entries with
  | nil => rwa [List.append_nil]
  | cons e more ih =>
    rw [List.append_cons]
    exact ih (h.add e.1 e.2)

theorem holds_ofEntries (capacity : Nat) (entries : List (String × Offset)) :
    (ofEntries capacity entries).Holds entries :=
  (holds_empty capacity).foldl_add entries

theorem capacity_foldl_add (t : NameIndex) (entries : List (String × Offset)) :
    (entries.foldl (fun t e => t.add e.1 e.2) t).capacity = t.capacity := by
  induction entries generalizing t with
  | nil => rfl
  | cons e entries ih => rw [List.foldl_cons, ih, capacity_add]

/-- There is a bucket at least. -/
theorem capacity_ofEntries (capacity : Nat) (entries : List (String × Offset)) :
    (ofEntries capacity entries).capacity = max capacity 1 :=
  (capacity_foldl_add ..).trans (Array.size_replicate ..)

/-- **The first entry of a name is found**, whatever else is in its bucket. -/
theorem Holds.find?_eq (h : t.Holds entries) (name : String) :
    t.find? name = (entries.find? (·.1 == name)).map Prod.snd := by
  rw [find?, h.chain_eq, List.find?_filter]
  congr 2
  funext e
  by_cases same : e.1 = name
  · simp [same]
  · simp [same]

/-! ## Stored form -/

/-- The entries that belong to bucket `b` of so many, in the order in which they were added. -/
def inBucket (capacity : Nat) (entries : List (String × Offset)) (b : Nat) : List (String × Offset) :=
  entries.filter fun e => bucketOf e.1 capacity = b

/-- The bytes of a bucket; an empty one has none. -/
def chainBytes (f : Format) (chain : List (String × Offset)) : List UInt8 :=
  if chain = [] then []
  else LittleEndian.encode f.countWidth chain.length ++ Image.pointerRun f (chain.map Prod.snd)

/-- How many bytes a bucket of `n` entries takes. -/
def chainSize (f : Format) (n : Nat) : Nat :=
  if n = 0 then 0 else f.countWidth + f.pointerWidth * n

/-- Every number of the bucket fits its field. -/
structure ChainFits (f : Format) (chain : List (String × Offset)) : Prop where
  count : chain.length ≤ f.largestCount
  offsets : ∀ e ∈ chain, e.2 ≤ f.largestOffset

/-- The slots of these buckets, the first of which is written at `o`. -/
def slotsFrom (f : Format) : Offset → List (List (String × Offset)) → List Offset
  | _, [] => []
  | o, chain :: chains =>
    (if chain = [] then 0 else o) :: slotsFrom f (o + (chainBytes f chain).length) chains

theorem length_chainBytes (f : Format) (chain : List (String × Offset)) :
    (chainBytes f chain).length = chainSize f chain.length := by
  unfold chainBytes chainSize
  by_cases empty : chain = []
  · simp [empty]
  · simp [empty, Image.length_pointerRun, Nat.mul_comm]

section

variable {w w' : Writer} {slots : List Offset}

theorem returns_writeChain {chain : List (String × Offset)} {slot : Offset} :
    Returns (writeChain chain) w slot w' ↔ ChainFits w.format chain ∧
      (if chain = [] then 0 else w.heap.size) = slot ∧ w.append (chainBytes w.format chain) = w' := by
  unfold writeChain Write.arrayOrNull chainBytes
  by_cases empty : chain = []
  · subst empty
    have fits : ChainFits w.format [] := ⟨Nat.zero_le _, nofun⟩
    simp [fits, Offset.null]
  · have some : ¬ (chain.map Prod.snd).isEmpty := by simpa using empty
    rw [if_neg some, if_neg empty, if_neg empty, Write.returns_array, List.length_map,
      List.forall_mem_map]
    exact ⟨fun ⟨few, le, placed⟩ => ⟨⟨few, le⟩, placed⟩, fun ⟨⟨few, le⟩, placed⟩ => ⟨few, le, placed⟩⟩

theorem returns_writeChains {chains : List (List (String × Offset))} :
    Returns (chains.mapM writeChain) w slots w' ↔ (∀ chain ∈ chains, ChainFits w.format chain) ∧
      slotsFrom w.format w.heap.size chains = slots ∧
      w.append (chains.flatMap (chainBytes w.format)) = w' := by
  induction chains generalizing w slots with
  | nil => simp [slotsFrom]
  | cons chain chains ih =>
    simp only [returns_mapM_cons, returns_writeChain, ih, List.forall_mem_cons, slotsFrom,
      List.flatMap_cons]
    constructor
    · rintro ⟨_, _, ⟨fits, rfl, rfl⟩, _, ⟨others, rfl, rfl⟩, rfl⟩
      refine ⟨⟨fits, others⟩, ?_, (w.append_append _ _).symm⟩
      rw [Writer.append_heap, Heap.size_append]
      rfl
    · rintro ⟨⟨fits, others⟩, rfl, rfl⟩
      refine ⟨_, _, ⟨fits, rfl, rfl⟩, _, ⟨others, rfl, w.append_append _ _⟩, ?_⟩
      rw [Writer.append_heap, Heap.size_append]
      rfl

/-- **What is written of an index**: an array for each bucket that is not empty, one behind the other, if
every number fits its field. -/
theorem returns_write : Returns t.write w slots w' ↔
    (∀ chain ∈ t.buckets.toList, ChainFits w.format chain) ∧
      slotsFrom w.format w.heap.size t.buckets.toList = slots ∧
      { w.append (t.buckets.toList.flatMap (chainBytes w.format)) with log := w.log.push t.summary } =
        w' := by
  unfold write
  simp only [returns_bind, returns_pure, returns_writeChains]
  constructor
  · rintro ⟨_, _, ⟨fits, rfl, rfl⟩, _, _, note, rfl, rfl⟩
    exact ⟨fits, rfl, (congrArg Prod.snd note)⟩
  · rintro ⟨fits, rfl, rfl⟩
    exact ⟨_, _, ⟨fits, rfl, rfl⟩, ⟨⟩, _, rfl, rfl, rfl⟩

theorem length_slotsFrom (f : Format) (o : Offset) (chains : List (List (String × Offset))) :
    (slotsFrom f o chains).length = chains.length := by
  induction chains generalizing o with
  | nil => rfl
  | cons chain chains ih => exact congrArg Nat.succ (ih _)

end

/-! ## Entries and buckets -/

/-- The numbers of all buckets fit if no bucket is too long and no offset out of reach. -/
theorem Holds.fits_iff (h : t.Holds entries) (f : Format) :
    (∀ chain ∈ t.buckets.toList, ChainFits f chain) ↔
      (∀ b < t.capacity, (inBucket t.capacity entries b).length ≤ f.largestCount) ∧
        ∀ e ∈ entries, e.2 ≤ f.largestOffset := by
  rw [h.toList_eq, List.forall_mem_map]
  simp only [List.mem_range]
  constructor
  · intro fits
    refine ⟨fun b lt => (fits b lt).count, fun e he => ?_⟩
    have here := (fits _ (bucketOf_lt t.buckets_pos e.1)).offsets
    exact here e (List.mem_filter.2 ⟨he, decide_eq_true rfl⟩)
  · rintro ⟨few, le⟩ b lt
    exact ⟨few b lt, fun e he => le e (List.mem_of_mem_filter he)⟩

/-- The slots lead to the offsets of the entries, bucket by bucket, and so to all of them. -/
structure SlotsLead (im : Image) (capacity : Nat) (entries : List (String × Offset))
    (slots : List Offset) : Prop where
  bucket : ∀ b slot, slots[b]? = some slot → slot ≠ 0 →
    im.array slot = .ok ((inBucket capacity entries b).map Prod.snd)
  all : ∃ arrays, List.Forall₂ (fun slot values => im.arrayOrEmpty slot = .ok values) slots arrays ∧
    arrays.flatten.Perm (entries.map Prod.snd)

section

variable {w w' : Writer} {slots : List Offset}

theorem Holds.getElem?_slots (h : t.Holds entries) (run : Returns t.write w slots w') {b : Nat}
    {slot : Offset} (here : slots[b]? = some slot) :
    (slot = 0 ↔ inBucket t.capacity entries b = []) ∧ ∀ im, w'.In im →
      im.arrayOrEmpty slot = .ok ((inBucket t.capacity entries b).map Prod.snd) := by
  have reads := write_reads run
  rw [h.toList_eq] at reads
  obtain ⟨lt, rfl⟩ := List.getElem?_eq_some_iff.1 here
  have lt' : b < ((List.range t.capacity).map (inBucket t.capacity entries)).length :=
    reads.length_eq ▸ lt
  have read := reads.get lt' lt
  simp only [List.get_eq_getElem, List.getElem_map, List.getElem_range] at read
  exact read

theorem Holds.slotsLead (h : t.Holds entries) (run : Returns t.write w slots w') {im : Image}
    (inside : w'.In im) : SlotsLead im t.capacity entries slots where
  bucket b slot here ne := by
    have read := (h.getElem?_slots run here).2 im inside
    rwa [Image.arrayOrEmpty, Offset.present?, if_neg ne] at read
  all := by
    refine ⟨t.buckets.toList.map (List.map Prod.snd), ?_, ?_⟩
    · rw [List.forall₂_map_right_iff]
      exact ((write_reads run).imp fun _ _ reads => reads.2 im inside).flip
    · rw [← List.map_flatten]
      exact h.flatten_perm.map _

/-- The heap grows by what the buckets take. -/
theorem Holds.size_write (h : t.Holds entries) (run : Returns t.write w slots w') :
    w'.heap.size = w.heap.size + ((List.range t.capacity).map fun b =>
      chainSize w.format (inBucket t.capacity entries b).length).sum := by
  obtain ⟨-, -, rfl⟩ := returns_write.1 run
  show (w.append _).heap.size = _
  rw [Writer.append_heap, Heap.size_append, List.length_flatMap, h.toList_eq, List.map_map]
  simp only [Function.comp_def, length_chainBytes]
  rfl

end

end NameIndex

/-- **An index keeps its entries**, in memory and stored. It has at least one bucket, counts every entry, and
finds the first one of a name. Writing it succeeds if and only if every number fits its field. Then there is
a slot for each bucket, null if no entry belongs there; the other slots lead to the offsets of the entries
of their buckets, in the order in which they were added, so all slots together to the offsets of all entries;
and the heap grew by the arrays of the buckets that are not empty. All bytes are in one block of memory. -/
theorem index_keeps_entries (capacity : Nat) (entries : List (String × Offset)) :
    let t := NameIndex.ofEntries capacity entries
    t.capacity = max capacity 1 ∧ t.size = entries.length ∧
      (∀ name, t.find? name = (entries.find? (·.1 == name)).map Prod.snd) ∧
      ∀ w : Writer,
        ((∃ slots w', Returns t.write w slots w') ↔
          (∀ b < t.capacity, (NameIndex.inBucket t.capacity entries b).length ≤ w.format.largestCount) ∧
            ∀ e ∈ entries, e.2 ≤ w.format.largestOffset) ∧
        ∀ slots w', Returns t.write w slots w' →
          slots.length = t.capacity ∧
          (∀ b slot, slots[b]? = some slot →
            (slot = 0 ↔ ∀ e ∈ entries, bucketOf e.1 t.capacity ≠ b)) ∧
          (w'.heap.size ≤ Heap.largestBlock →
            NameIndex.SlotsLead ⟨w'.heap.bytes, w.format⟩ t.capacity entries slots) ∧
          w.heap.bytes.toList <+: w'.heap.bytes.toList ∧
          w'.heap.size = w.heap.size + ((List.range t.capacity).map fun b =>
            NameIndex.chainSize w.format (NameIndex.inBucket t.capacity entries b).length).sum := by
  intro t
  have holds : t.Holds entries := NameIndex.holds_ofEntries capacity entries
  refine ⟨NameIndex.capacity_ofEntries capacity entries, holds.size, holds.find?_eq, fun w => ⟨?_, ?_⟩⟩
  · rw [← holds.fits_iff]
    exact ⟨fun ⟨_, _, run⟩ => (NameIndex.returns_write.1 run).1,
      fun fits => ⟨_, _, NameIndex.returns_write.2 ⟨fits, rfl, rfl⟩⟩⟩
  · intro slots w' run
    have grew := t.grows_write.of_returns run
    refine ⟨?_, fun b slot here => ?_, fun fits => ?_, grew.heap, holds.size_write run⟩
    · obtain ⟨-, rfl, -⟩ := NameIndex.returns_write.1 run
      exact (NameIndex.length_slotsFrom ..).trans Array.length_toList
    · rw [(holds.getElem?_slots run here).1]
      simp [NameIndex.inBucket]
    · exact holds.slotsLead run ⟨grew.format.symm, List.prefix_rfl, fits⟩

/-- Two entries of one name and one that collides with them, between two empty buckets. -/
theorem index_keeps_entries_colliding :
    let t := NameIndex.ofEntries 3 [("b", 2), ("a", 1), ("b", 3)]
    let w : Writer := { format := ⟨⟨1, 1⟩, by decide⟩ }
    t.find? "b" = some 2 ∧ ∃ w', Returns t.write w [0, 1, 0] w' ∧
      NameIndex.SlotsLead ⟨w'.heap.bytes, w.format⟩ t.capacity [("b", 2), ("a", 1), ("b", 3)] [0, 1, 0] := by
  intro t w
  obtain ⟨-, -, find, written⟩ := index_keeps_entries 3 [("b", 2), ("a", 1), ("b", 3)]
  have run : Returns t.write w [0, 1, 0] _ := rfl
  exact ⟨find "b", _, run, ((written w).2 _ _ run).2.2.1 (by decide)⟩

end DeclArchive
