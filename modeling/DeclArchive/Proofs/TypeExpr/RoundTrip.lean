import DeclArchive.Proofs.Session
import DeclArchive.Proofs.TypeExpr.Layout

/-!
# Types come back, to a fixed depth

In whatever state a session leaves a writer, a type that is written there is read back where it was
written, and the reader stops at its end. The writer has no limit on how deep a type nests, but the reader
has: of a type that is higher it reads the nodes up to the first one that is too deep, and names the
offset of that one (`type_round_trip`).
-/

namespace DeclArchive

/-- A session from a fresh writer can leave this one; steps of it may have failed. -/
def Writer.Reachable (w : Writer) : Prop :=
  ∃ (widths : Widths) (fresh : Writer) (index : NameIndex) (steps : List Step),
    Writer.empty widths = .ok fresh ∧ (Builder.applyAll ⟨fresh, index⟩ steps).2.writer = w

theorem Writer.Reachable.sound {w : Writer} (h : w.Reachable) : w.Sound := by
  obtain ⟨widths, fresh, index, steps, start, rfl⟩ := h
  exact (Builder.grew_applyAll ⟨fresh, index⟩ steps).sound (Writer.sound_empty start)

section

variable {w w' : Writer} {t : TypeExpr} {o : Offset} {im : Image}

/-- What is written of a type behind its offset is its run. -/
theorem TypeExpr.write_size (run : Returns t.write w o w') :
    o + t.runSize w.format = w'.heap.size := by
  unfold TypeExpr.write at run
  simp only [returns_bind, Write.returns_position, returns_pure] at run
  obtain ⟨refs, u, first, _, _, ⟨rfl, rfl⟩, _, _, node, rfl, rfl⟩ := run
  rw [size_writeNode node, (t.grows_writeParts.of_returns first).format]

/-- A reader of too few levels stops at the first node that is too deep. -/
theorem TypeExpr.write_tooDeep {levels : Nat} (sound : w.Sound) (run : Returns t.write w o w')
    (inside : w'.In im) (high : levels < t.height) :
    ∃ place, firstAt? levels (t.places w.format 0 o) = some place ∧
      readTypeWithin im levels o = .error (.malformed place.offset .nestingTooDeep) := by
  unfold TypeExpr.write at run
  simp only [returns_bind, Write.returns_position, returns_pure] at run
  obtain ⟨refs, u, first, _, _, ⟨rfl, rfl⟩, _, _, node, rfl, rfl⟩ := run
  have within := ((t.grows_writeNode refs).of_returns node).within inside
  have parts := (t.writeParts_store sound first).imp fun _ _ => Part.Stored.read within
  rw [← List.append_nil refs] at node
  have stops := t.read_tooDeep 0 high node inside parts
  rw [Nat.zero_add, (t.grows_writeParts.of_returns first).format] at stops
  exact stops

end

/-- **Types come back.** Written by any reachable writer, a type without `U+0000` takes its run and no more
behind its offset; it is read back there if it is at most 256 levels high, and else the reader reports the
first node that has 256 nodes above it. Signatures come back too. All bytes are in one block of
memory. -/
theorem type_round_trip {w : Writer} (reachable : w.Reachable) :
    (∀ (t : TypeExpr) (o : Offset) (w' : Writer), Returns t.write w o w' →
      w'.heap.size ≤ Heap.largestBlock → (∀ s ∈ t.texts, Utf8.NulFree s) →
        o + t.runSize w.format = w'.heap.size ∧
        (t.height ≤ 256 → readType ⟨w'.heap.bytes, w.format⟩ o = .ok (t, w'.heap.size)) ∧
        (256 < t.height → ∃ place, firstAt? 256 (t.places w.format 0 o) = some place ∧
          readType ⟨w'.heap.bytes, w.format⟩ o =
            .error (.malformed place.offset .nestingTooDeep))) ∧
      (∀ (ts : List TypeExpr) (o : Offset) (w' : Writer), Returns (writeSignature ts) w o w' →
        w'.heap.size ≤ Heap.largestBlock → (∀ t ∈ ts, t.height ≤ 256) →
        (∀ t ∈ ts, ∀ s ∈ t.texts, Utf8.NulFree s) →
          readSignature ⟨w'.heap.bytes, w.format⟩ o = .ok ts) ∧
      Malformed.text .nestingTooDeep = "type nesting too deep" := by
  refine ⟨fun t o w' run fits plain => ?_, fun ts o w' run fits low plain => ?_, rfl⟩
  · have inside : w'.In ⟨w'.heap.bytes, w.format⟩ :=
      ⟨(t.grows_write.of_returns run).format.symm, List.prefix_rfl, fits⟩
    exact ⟨TypeExpr.write_size run,
      fun low => TypeExpr.write_reads reachable.sound run inside low plain,
      TypeExpr.write_tooDeep reachable.sound run inside⟩
  · have inside : w'.In ⟨w'.heap.bytes, w.format⟩ :=
      ⟨((grows_writeSignature ts).of_returns run).format.symm, List.prefix_rfl, fits⟩
    exact writeSignature_reads reachable.sound run inside low plain

namespace Sample

/-- A block that takes a block, and so on down to a number. -/
def nested : Nat → TypeExpr
  | 0 => .scalar .int
  | n + 1 => .callable .block [.scalar .void, nested n]

theorem height_nested (n : Nat) : (nested n).height = n + 1 := by
  induction n with
  | zero => rfl
  | succ n ih => simp [nested, TypeExpr.height, heightOfTypes, ih]

theorem writeParts_nested (n : Nat) : (nested n).writeParts = pure [] := by
  induction n with
  | zero => rfl
  | succ n ih => simp [nested, TypeExpr.writeParts, writePartsOfTypes, ih]

theorem parts_nested (n : Nat) : (nested n).parts = [] := by
  induction n with
  | zero => rfl
  | succ n ih => simpa [nested, TypeExpr.parts, partsOfTypes] using ih

theorem runSize_nested (f : Format) (n : Nat) : (nested n).runSize f = 3 * n + 1 := by
  induction n with
  | zero => rfl
  | succ n ih =>
    simp [nested, TypeExpr.runSize, runSizeOfTypes, ih]
    omega

theorem returns_writeNode_nested (n : Nat) (w : Writer) :
    ∃ w', Returns ((nested n).writeNode []) w [] w' := by
  induction n generalizing w with
  | zero => exact ⟨_, rfl⟩
  | succ n ih =>
    simp [nested, TypeExpr.writeNode, writeSmallCount, writeNodes]
    apply ih

theorem places_nested (f : Format) (n depth o : Nat) :
    (nested (n + 1)).places f depth o =
      ⟨depth, o, nested (n + 1)⟩ :: ⟨depth + 1, o + 2, .scalar .void⟩ ::
        ((nested n).places f (depth + 1) (o + 3) ++ []) := rfl

/-- The return type of the innermost block comes before its parameter, and is as deep. -/
theorem firstAt?_nested (f : Format) (n depth o : Nat) :
    firstAt? (depth + n + 1) ((nested (n + 1)).places f depth o) =
      some ⟨depth + n + 1, o + 3 * n + 2, .scalar .void⟩ := by
  induction n generalizing depth o with
  | zero => simp [firstAt?, places_nested]
  | succ n ih =>
    have below := ih (depth + 1) (o + 3)
    have deeper : ¬ depth = depth + (n + 1) + 1 := by omega
    rw [show depth + 1 + n + 1 = depth + (n + 1) + 1 by omega,
      show o + 3 + 3 * n + 2 = o + 3 * (n + 1) + 2 by omega] at below
    rw [places_nested, List.append_nil]
    simpa [firstAt?, deeper] using below

/-- A writer that has two bytes and refused a pointer. -/
def started : Writer :=
  (Builder.applyAll ⟨{ format := ⟨⟨1, 2⟩, by decide⟩ }, .empty 1⟩ [.uint16 7, .pointer 256]).2.writer

theorem reachable_started : started.Reachable := ⟨⟨1, 2⟩, _, .empty 1, _, rfl, rfl⟩

theorem returns_nested (n : Nat) : ∃ w', Returns (nested n).write started 3 w' := by
  obtain ⟨w', node⟩ := returns_writeNode_nested n started
  refine ⟨w', ?_⟩
  simp only [TypeExpr.write, writeParts_nested, returns_bind, returns_pure, Write.returns_position]
  exact ⟨[], started, ⟨rfl, rfl⟩, 3, started, ⟨rfl, rfl⟩, [], w', node, rfl, rfl⟩

end Sample

/-- The highest type that can be read back, and one that is a level higher, each written at 3. -/
theorem type_round_trip_nested :
    ∃ w w' : Writer,
      Returns (Sample.nested 255).write Sample.started 3 w ∧
        readType ⟨w.heap.bytes, Sample.started.format⟩ 3 = .ok (Sample.nested 255, 769) ∧
      Returns (Sample.nested 256).write Sample.started 3 w' ∧
        readType ⟨w'.heap.bytes, Sample.started.format⟩ 3 =
          .error (.malformed 770 .nestingTooDeep) := by
  obtain ⟨w, run⟩ := Sample.returns_nested 255
  obtain ⟨w', run'⟩ := Sample.returns_nested 256
  have size : 769 = w.heap.size := by simpa [Sample.runSize_nested] using TypeExpr.write_size run
  have size' : 772 = w'.heap.size := by simpa [Sample.runSize_nested] using TypeExpr.write_size run'
  have plain (n : Nat) : ∀ s ∈ (Sample.nested n).texts, Utf8.NulFree s := by
    simp [TypeExpr.texts, Sample.parts_nested]
  have codec := (type_round_trip Sample.reachable_started).1
  obtain ⟨-, read, -⟩ := codec _ _ _ run (by rw [← size]; decide) (plain 255)
  obtain ⟨-, -, stop⟩ := codec _ _ _ run' (by rw [← size']; decide) (plain 256)
  rw [Sample.height_nested, ← size] at read
  rw [Sample.height_nested] at stop
  obtain ⟨place, first, stop⟩ := stop (by decide)
  have at770 := Sample.firstAt?_nested Sample.started.format 255 0 3
  obtain rfl := Option.some.inj (at770.symm.trans first)
  exact ⟨w, w', run, read (by decide), run', stop⟩

end DeclArchive
