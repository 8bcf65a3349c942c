import DeclArchive.NameIndex
import DeclArchive.Proofs.Writer

/-!
# The name index

`NameIndex.Holds t entries` says that the buckets of `t` hold these entries, each bucket those whose
name belongs to it, in the order in which they were added. Adding an entry appends it to the list
(`Holds.add`) and to its bucket (`gains_add`). All buckets together hold every entry once
(`Holds.flatten_perm`), and the stored slots lead to the offsets of the buckets
(`NameIndex.write_reads`).
-/

namespace DeclArchive

/-! ## Bucket counts -/

theorem firstPrime?_bounds {fuel n p : Nat} (h : firstPrime? fuel n = some p) :
    n ≤ p ∧ p < n + fuel := by
  induction fuel generalizing n with
  | zero => cases h
  | succ fuel ih =>
    unfold firstPrime? at h
    split_ifs at h
    · cases h
      omega
    · have := ih h
      omega

/-- There are as many buckets as the load asks for, and at most twice as many. -/
theorem bucketCountFor_bounds (n : Nat) :
    loadTarget n ≤ bucketCountFor n ∧ bucketCountFor n ≤ 2 * loadTarget n := by
  unfold bucketCountFor
  dsimp only
  cases found : firstPrime? (loadTarget n + 1) (loadTarget n) with
  | none => exact ⟨Nat.le_refl _, Nat.le_mul_of_pos_left _ Nat.two_pos⟩
  | some p =>
    have := firstPrime?_bounds found
    exact ⟨this.1, by rw [Option.getD_some]; omega⟩

namespace NameIndex

variable {t : NameIndex} {entries : List (String × Offset)}

/-! ## Entries -/

/-- The buckets hold these entries, which were added in this order. -/
structure Holds (t : NameIndex) (entries : List (String × Offset)) : Prop where
  size : t.size = entries.length
  bucket : ∀ b (h : b < t.buckets.size),
    t.buckets[b] = entries.filter fun e => bucketOf e.1 t.capacity = b

theorem holds_empty (capacity : Nat) : (empty capacity).Holds [] where
  size := rfl
  bucket _ _ := Array.getElem_replicate _

/-- There is room for the buckets of up to `2 ^ 57` names. -/
theorem reserve_bucketCountFor {n : Nat} (few : n ≤ 0x200000000000000) :
    reserve (bucketCountFor n) = .ok (emptyFor n) := by
  have count := (bucketCountFor_bounds n).2
  have room : bucketBytes * bucketCountFor n ≤ Heap.largestBlock := by
    unfold loadTarget at count
    unfold bucketBytes Heap.largestBlock
    omega
  unfold reserve
  rw [if_neg (Nat.not_lt.2 room)]
  rfl

/-- An index has as many buckets as were asked for. -/
theorem capacity_emptyFor (expected : Nat) :
    (emptyFor expected).capacity = bucketCountFor expected := by
  have few : 2 ≤ loadTarget expected := Nat.le_max_left ..
  have := (bucketCountFor_bounds expected).1
  refine (Array.size_replicate ..).trans (Nat.max_eq_left ?_)
  omega

@[simp] theorem capacity_add (t : NameIndex) (name : String) (o : Offset) :
    (t.add name o).capacity = t.capacity := Array.size_modify

theorem Holds.add (h : t.Holds entries) (name : String) (o : Offset) :
    (t.add name o).Holds (entries ++ [(name, o)]) where
  size := by
    rw [List.length_append, List.length_singleton, ← h.size]
    rfl
  bucket b lt := by
    have lt' : b < t.buckets.size := by rwa [← Array.size_modify]
    rw [capacity_add, List.filter_append, ← h.bucket b lt']
    refine (Array.getElem_modify lt).trans ?_
    split_ifs with here
    · simp [here]
    · simp [here]

/-- The later index has one more entry, at the end of its bucket. -/
structure Gains (t : NameIndex) (name : String) (o : Offset) (t' : NameIndex) : Prop where
  size : t'.size = t.size + 1
  bucket : ∀ b, t'.buckets[b]? = t.buckets[b]?.map fun chain =>
    if b = bucketOf name t.capacity then chain ++ [(name, o)] else chain

theorem gains_add (t : NameIndex) (name : String) (o : Offset) : t.Gains name o (t.add name o) where
  size := rfl
  bucket b := by
    refine (Array.getElem?_modify ..).trans ?_
    by_cases here : bucketOf name t.capacity = b
    · simp [here]
    · simp [here, Ne.symm here]

/-- The buckets one after another. -/
theorem Holds.toList_eq (h : t.Holds entries) :
    t.buckets.toList =
      (List.range t.capacity).map fun b => entries.filter fun e => bucketOf e.1 t.capacity = b := by
  refine List.ext_getElem (by simp [capacity]) fun b lt _ => ?_
  rw [Array.getElem_toList, h.bucket b (by simpa using lt)]
  simp

theorem perm_flatMap_range {α : Type} (f : α → Nat) (xs : List α) (n : Nat) :
    ((List.range n).flatMap fun b => xs.filter fun x => f x = b).Perm (xs.filter fun x => f x < n) := by
  induction n with
  | zero => simp
  | succ n ih =>
    rw [List.range_succ, List.flatMap_append, List.flatMap_singleton]
    -- what belongs to one of `n + 1` buckets belongs to one of `n`, or to the last
    have below : (xs.filter fun x => f x < n + 1).filter (fun x => f x < n) =
        xs.filter fun x => f x < n := by
      rw [List.filter_filter]
      refine List.filter_congr fun x _ => ?_
      rw [← Bool.decide_and, decide_eq_decide]
      omega
    have last : (xs.filter fun x => f x < n + 1).filter (fun x => !decide (f x < n)) =
        xs.filter fun x => f x = n := by
      rw [List.filter_filter]
      refine List.filter_congr fun x _ => ?_
      rw [← decide_not, ← Bool.decide_and, decide_eq_decide]
      omega
    have split := List.filter_append_perm (fun x => f x < n) (xs.filter fun x => f x < n + 1)
    rw [below, last] at split
    exact (ih.append_right _).trans split

/-- All buckets together hold every entry once. -/
theorem Holds.flatten_perm (h : t.Holds entries) : t.buckets.toList.flatten.Perm entries := by
  have all : (entries.filter fun e => bucketOf e.1 t.capacity < t.capacity) = entries :=
    List.filter_eq_self.2 fun e _ => decide_eq_true (bucketOf_lt t.buckets_pos e.1)
  have perm := perm_flatMap_range (fun e => bucketOf e.1 t.capacity) entries t.capacity
  rwa [all, List.flatMap_def, ← h.toList_eq] at perm

theorem Holds.chain_eq (h : t.Holds entries) (name : String) :
    t.chain name =
      entries.filter fun e => bucketOf e.1 t.capacity = bucketOf name t.capacity :=
  h.bucket _ _

/-! ## Stored form -/

section

variable {w w' : Writer} {slots : List Offset}

theorem grows_writeChain (entries : List (String × Offset)) : Write.Grows (writeChain entries) :=
  Write.grows_arrayOrNull _

theorem grows_write (t : NameIndex) : Write.Grows t.write :=
  (Keeps.mapM grows_writeChain _).bind fun _ => (Write.grows_note rfl).bind fun _ => keeps_pure _

theorem writeChain_eq_zero {slot : Offset} (run : Returns (writeChain entries) w slot w') :
    slot = 0 ↔ entries = [] := by
  unfold writeChain Write.arrayOrNull at run
  split_ifs at run with empty
  · obtain ⟨rfl, -⟩ := returns_pure.1 run
    exact ⟨fun _ => List.map_eq_nil_iff.1 (List.isEmpty_iff.1 empty), fun _ => rfl⟩
  · obtain ⟨-, -, rfl, -⟩ := Write.returns_array.1 run
    refine ⟨fun e => (w.heap.size_pos.ne' e).elim, fun e => (empty ?_).elim⟩
    rw [e]
    rfl

/-- Each slot leads to the offsets of its bucket, and is null for an empty one only. -/
theorem write_reads (run : Returns t.write w slots w') :
    List.Forall₂ (fun entries slot => (slot = 0 ↔ entries = []) ∧ ∀ im, w'.In im →
      im.arrayOrEmpty slot = .ok (entries.map Prod.snd)) t.buckets.toList slots := by
  unfold write at run
  simp only [returns_bind, returns_pure] at run
  obtain ⟨_, v, chains, _, _, note, rfl, rfl⟩ := run
  have grew := (Write.grows_note rfl).of_returns note
  have each := @Returns.forall₂_of_mapM _ _ _ Writer.Grew _ (fun _ => True)
    (fun entries slot v => (slot = 0 ↔ entries = []) ∧ ∀ im, v.In im →
      im.arrayOrEmpty slot = .ok (entries.map Prod.snd))
    _ grows_writeChain (fun _ _ => trivial)
    (fun grew h => ⟨h.1, fun im inside => h.2 im (grew.within inside)⟩) t.buckets.toList
    (fun entries _ _ _ _ _ run => ⟨writeChain_eq_zero run, fun im inside =>
      Write.arrayOrNull_reads run inside⟩) _ _ _ trivial chains
  exact each.imp fun _ _ h => ⟨h.1, fun im inside => h.2 im (grew.within inside)⟩

end

end NameIndex

end DeclArchive
