import DeclArchive.Proofs.TypeExpr.Found
import Mathlib.Data.List.Perm.Subperm

/-!
# What it takes to write a type again

A type that was read from an image may be larger once it is written, for what the image shares is written
apart. The growth has two accounts. A text costs nothing but being known, and no more texts can become known
than there are places in the image (`size_interned_le`); everything else is paid byte by byte, an array of
protocols with no more than the whole image (`Write.Costs`, `TypeExpr.costs_write`).
-/

namespace DeclArchive

/-! ## Growth that is paid for -/

/-- From `w` to `w'` the heap grew by `n` bytes at most, beside the texts that became known, all of which
are texts of the image and no longer than it. -/
structure Writer.Spent (im : Image) (n : Nat) (w w' : Writer) : Prop where
  format : w'.format = w.format
  size : w'.heap.size + im.size * w.interned.size ≤ w.heap.size + im.size * w'.interned.size + n
  texts : ∀ s ∈ w'.interned, s ∈ w.interned ∨ ∃ o, im.text o = .ok s

namespace Writer.Spent

variable {im : Image} {n m : Nat} {w u v : Writer}

theorem refl (w : Writer) : w.Spent im 0 w := ⟨rfl, Nat.le_refl _, fun _ h => .inl h⟩

theorem trans (h : w.Spent im n u) (k : u.Spent im m v) : w.Spent im (n + m) v where
  format := k.format.trans h.format
  size := by
    have first := h.size
    have second := k.size
    omega
  texts s hs := (k.texts s hs).elim (h.texts s) .inr

theorem mono (h : w.Spent im n u) (le : n ≤ m) : w.Spent im m u :=
  ⟨h.format, h.size.trans (Nat.add_le_add_left le _), h.texts⟩

end Writer.Spent

theorem Writer.spent_append {im : Image} (w : Writer) (data : List UInt8) :
    w.Spent im data.length (w.append data) where
  format := rfl
  size := by
    have grown : (w.append data).heap.size = w.heap.size + data.length := by simp
    show (w.append data).heap.size + im.size * w.interned.size ≤ _ + im.size * w.interned.size + _
    omega
  texts _ h := .inl h

namespace Write

variable {im : Image} {α β : Type} {n m : Nat}

/-- However a run ends, it spends `n` bytes at most. -/
def Costs (im : Image) (n : Nat) (x : Write α) : Prop :=
  ∀ w : Writer, w.format = im.format → w.Spent im n (x.run.run w).2

theorem costs_pure (a : α) : Costs im 0 (pure a : Write α) := fun w _ => .refl w

theorem costs_throw (e : Error) : Costs im 0 (throw e : Write α) := fun w _ => .refl w

theorem Costs.mono {x : Write α} (h : Costs im n x) (le : n ≤ m) : Costs im m x :=
  fun w format => (h w format).mono le

/-- The second step may depend on what the first one returned. -/
theorem Costs.bind {x : Write β} {f : β → Write α} (first : Costs im n x)
    (next : ∀ b, (∃ w w', Returns x w b w') → Costs im m (f b)) : Costs im (n + m) (x >>= f) := by
  intro w format
  have spent := first w format
  rw [run_bind]
  rcases result : x.run.run w with ⟨e | b, w'⟩
  · rw [result] at spent
    exact spent.mono (Nat.le_add_right n m)
  · rw [result] at spent
    exact spent.trans (next b ⟨w, w', result⟩ w' (spent.format.trans format))

theorem Costs.mapM {f : α → Write β} {xs : List α} (each : ∀ x ∈ xs, Costs im n (f x)) :
    Costs im (n * xs.length) (xs.mapM f) := by
  induction xs with
  | nil => exact costs_pure []
  | cons x xs ih =>
    obtain ⟨first, others⟩ := List.forall_mem_cons.1 each
    rw [List.mapM_cons, List.length_cons, Nat.mul_succ, Nat.add_comm]
    exact first.bind fun y _ => (ih others).bind fun ys _ => costs_pure _

theorem Costs.forM {f : α → Write PUnit} (each : ∀ x, Costs im n (f x)) (xs : List α) :
    Costs im (n * xs.length) (xs.forM f) := by
  induction xs with
  | nil => exact costs_pure _
  | cons x xs ih =>
    rw [List.length_cons, Nat.mul_succ, Nat.add_comm]
    exact (each x).bind fun _ _ => ih

/-! ## Operations -/

theorem costs_bytes (data : List UInt8) : Costs im data.length (bytes data) :=
  fun w _ => Writer.spent_append w data

/-- A text of the image is paid for by being known. -/
theorem costs_text {s : String} (found : ∃ o, im.text o = .ok s) : Costs im 0 (text s) := by
  intro w _
  rw [text_run]
  cases known : w.interned[s]? with
  | some o => exact .refl w
  | none =>
    obtain ⟨o, text⟩ := found
    have room := Image.text_size_le text
    have new : s ∉ w.interned := by
      rw [Std.HashMap.mem_iff_isSome_getElem?, known]
      simp
    have grown : (w.intern s).heap.size = w.heap.size + (Utf8.encode s).length + 1 := by
      simp [Writer.intern, Nat.add_assoc]
    have more : (w.intern s).interned.size = w.interned.size + 1 := by
      simp [Writer.intern, Std.HashMap.size_insert, new]
    refine ⟨rfl, ?_, fun s' mem => ?_⟩
    · show (w.intern s).heap.size + _ ≤ _ + im.size * (w.intern s).interned.size + _
      rw [grown, more, Nat.mul_succ]
      omega
    · rcases Std.HashMap.mem_insert.1 mem with same | old
      · exact .inr ⟨o, (eq_of_beq same) ▸ text⟩
      · exact .inl old

theorem costs_position : Costs im 0 position := fun w _ => .refl w

theorem costs_byte (v : UInt8) : Costs im 1 (byte v) := costs_bytes [v]

theorem costs_number (width n : Nat) : Costs im width (number width n) := by
  have cost : Costs im _ (number width n) := costs_bytes (LittleEndian.encode width n)
  rwa [LittleEndian.length_encode] at cost

/-- A guard costs nothing. -/
theorem Costs.guarded {guarded : Write Offset} {width m : Nat}
    (either : ∀ w : Writer, w.format = im.format → (∃ e, Stops guarded w e w) ∨
      ∃ o, Returns guarded w o (w.append (LittleEndian.encode width m))) :
    Costs im width guarded := by
  intro w format
  rcases either w format with ⟨e, stops⟩ | ⟨o, returns⟩
  · rw [stops]
    exact (Writer.Spent.refl w).mono (Nat.zero_le _)
  · rw [returns]
    exact costs_number width m w format

theorem costs_pointer (target : Offset) : Costs im im.format.pointerWidth (pointer target) := by
  refine Costs.guarded (m := target) fun w format => ?_
  by_cases large : w.format.largestOffset < target
  · exact .inl ⟨.offsetOverflow target w.format.pointer, by simp [pointer, large]⟩
  · exact .inr ⟨_, returns_pointer.2 ⟨Nat.not_lt.1 large, rfl, by rw [format]⟩⟩

theorem costs_count (n : Nat) : Costs im im.format.countWidth (count n) := by
  refine Costs.guarded (m := n) fun w format => ?_
  by_cases large : w.format.largestCount < n
  · exact .inl ⟨.countOverflow n w.format.count, by simp [count, large]⟩
  · exact .inr ⟨_, returns_count.2 ⟨Nat.not_lt.1 large, rfl, by rw [format]⟩⟩

theorem costs_array (targets : List Offset) :
    Costs im (im.format.countWidth + im.format.pointerWidth * targets.length) (array targets) :=
  (costs_count _).bind fun _ _ =>
    (Costs.forM (fun target => (costs_pointer target).bind fun _ _ => costs_pure _) targets).bind
      fun _ _ => costs_pure _

end Write

/-! ## Types -/

section

open Write

variable {im : Image}

/-- A part that was found costs no more than the bytes of the image. -/
theorem Part.costs_write {p : Part} (found : p.Found im) : Costs im im.size p.write := by
  have texts (ss : List String) (each : ∀ s ∈ ss, ∃ o, im.text o = .ok s) :
      Costs im 0 (Write.texts ss) := by
    have cost := Costs.mapM fun s hs => costs_text (each s hs)
    rwa [Nat.zero_mul] at cost
  cases p with
  | name s => exact (costs_text found).mono (Nat.zero_le _)
  | protocols ss =>
    rw [← Nat.zero_add im.size]
    refine (texts ss found.texts).bind fun os ⟨w, w', run⟩ => ?_
    have length := run.length_of_mapM
    unfold arrayOrNull
    split_ifs with none
    · exact (costs_pure _).mono (Nat.zero_le _)
    · rcases found.array with rfl | ⟨-, room⟩
      · exact absurd (List.isEmpty_iff.2 (List.length_eq_zero_iff.1 length)) none
      · exact (costs_array os).mono (length ▸ room)

theorem costs_writeSmallCount (n : Nat) : Costs im 1 (writeSmallCount n) := by
  unfold writeSmallCount
  dsimp only
  have counted : Costs im 1 (do let _ ← byte (UInt8.ofNat n)) :=
    (costs_byte _).bind fun _ _ => costs_pure _
  split_ifs
  · exact ((costs_throw _).bind fun _ _ => counted).mono (Nat.le_refl 1)
  · exact counted

theorem costs_writeReference (refs : List Offset) :
    Costs im im.format.pointerWidth (writeReference refs) := by
  cases refs with
  | nil => exact (costs_throw _).mono (Nat.zero_le _)
  | cons o rest => exact (costs_pointer o).bind fun _ _ => costs_pure _

theorem costs_writeReferences (n : Nat) (refs : List Offset) :
    Costs im (im.format.pointerWidth * n) (writeReferences n refs) := by
  induction n generalizing refs with
  | zero => exact costs_pure _
  | succ n ih =>
    rw [Nat.mul_succ, Nat.add_comm]
    exact (costs_writeReference refs).bind fun rest _ => ih rest

theorem TypeExpr.costs_writeHead (t : TypeExpr) (refs : List Offset) :
    Costs im (t.headSize im.format) (t.writeHead refs) := by
  have tagged {m : Nat} (payload : Costs im m (t.writePayload refs))
      (le : 1 + m ≤ t.headSize im.format) : Costs im (t.headSize im.format) (t.writeHead refs) :=
    ((costs_byte _).bind fun _ _ => payload).mono le
  cases t with
  | scalar | indirect => exact tagged (costs_pure refs) (Nat.le_refl _)
  | named | object => exact tagged (costs_writeReference refs) (Nat.le_refl _)
  | sized => exact tagged ((costs_number 4 _).bind fun _ _ => costs_pure refs) (Nat.le_refl _)
  | callable =>
    exact tagged ((costs_writeSmallCount _).bind fun _ _ => costs_pure refs) (Nat.le_refl _)
  | anonymous =>
    refine tagged ((costs_writeSmallCount _).bind fun _ _ => costs_writeReferences _ refs) ?_
    rw [headSize, ← Nat.add_assoc]

theorem costs_writeNodes {ts : List TypeExpr}
    (each : ∀ t ∈ ts, ∀ refs, Costs im (t.runSize im.format) (t.writeNode refs))
    (refs : List Offset) : Costs im (runSizeOfTypes im.format ts) (writeNodes ts refs) := by
  induction ts generalizing refs with
  | nil => exact costs_pure _
  | cons t ts ih =>
    obtain ⟨first, others⟩ := List.forall_mem_cons.1 each
    exact (first refs).bind fun rest _ => ih others rest

theorem TypeExpr.costs_writeNode (t : TypeExpr) (refs : List Offset) :
    Costs im (t.runSize im.format) (t.writeNode refs) := by
  induction t using TypeExpr.induction generalizing refs with
  | node t ih =>
    rw [writeNode_eq, runSize_eq]
    exact (t.costs_writeHead refs).bind fun rest _ => costs_writeNodes ih rest

/-- Writing a type takes its run, beside what was found once. -/
theorem TypeExpr.costs_write {t : TypeExpr} (found : ∀ p ∈ t.parts, p.Found im) :
    Costs im (im.size * t.parts.length + t.runSize im.format) t.write := by
  unfold TypeExpr.write
  rw [writeParts_eq]
  refine (Costs.mapM fun p hp => Part.costs_write (found p hp)).bind fun refs _ => ?_
  rw [← Nat.zero_add (t.runSize im.format)]
  exact costs_position.bind fun start _ =>
    (t.costs_writeNode refs).bind fun _ _ => costs_pure start

end

/-! ## Fresh writers -/

/-- No more texts are known than there are places in the image where a text can begin. -/
theorem size_interned_le {im : Image} {known : Std.HashMap String Offset}
    (found : ∀ s ∈ known, ∃ o, im.text o = .ok s) : known.size ≤ im.size := by
  have nodup : known.keys.Nodup := known.nodup_keys
  have sub : known.keys ⊆ (List.range im.size).filterMap fun o => (im.text o).toOption := by
    intro s hs
    obtain ⟨o, text⟩ := found s (Std.HashMap.mem_keys.1 hs)
    have room := Image.text_size_le text
    exact List.mem_filterMap.2 ⟨o, List.mem_range.2 (by omega), by rw [text]; rfl⟩
  rw [← Std.HashMap.length_keys]
  calc known.keys.length
      ≤ ((List.range im.size).filterMap fun o => (im.text o).toOption).length :=
        (List.subperm_of_subset nodup sub).length_le
    _ ≤ (List.range im.size).length := List.length_filterMap_le ..
    _ = im.size := List.length_range

theorem TypeExpr.length_ownParts_le (t : TypeExpr) (f : Format) : t.ownParts.length ≤ t.headSize f := by
  have pos := f.pointerWidth_pos
  cases t with
  | anonymous _ fields =>
    have := Nat.le_mul_of_pos_left fields.length pos
    simp only [ownParts, headSize, List.length_map]
    omega
  | _ => simp [ownParts, headSize]

/-- The run of a type has a pointer for each part. -/
theorem TypeExpr.length_parts_le (t : TypeExpr) (f : Format) : t.parts.length ≤ t.runSize f := by
  have addsUp (t : TypeExpr) :
      t.parts.length = t.ownParts.length + (t.children.map fun c => c.parts.length).sum := by
    rw [parts_eq, List.length_append, partsOfTypes_eq, List.length_flatMap]
  exact measure_le_runSize addsUp (fun t => t.length_ownParts_le f) t

end DeclArchive
