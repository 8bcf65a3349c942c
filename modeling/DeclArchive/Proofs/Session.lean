import DeclArchive.Proofs.Register
import DeclArchive.Record.Session

/-!
# Sessions

Steps are applied to one builder in any order, and a step that fails leaves what it wrote. Still the
heap only grows (`Builder.grew_apply`, `Builder.grew_applyAll`), no step returns the null offset for
something it wrote (`Step.Placed`), and what a step returned is read back at the end of the session
(`Step.ReadBack`): `session_sound`.
-/

namespace DeclArchive

/-! ## What a step promises -/

/-- The answer addresses something: an offset is never null, and a slot is null for an empty bucket
only. -/
def Step.Placed (index : NameIndex) : Step → Answer → Prop
  | .addName _ _, .nothing => True
  | .addName _ _, _ => False
  | .writeIndex, .slots os =>
    List.Forall₂ (fun entries slot => slot = 0 ↔ entries = []) index.buckets.toList os
  | .writeIndex, _ => False
  | _, .offset o => o ≠ 0
  | _, _ => False

/-- The read that matches the step finds, where the step says, what was written. `index` is the index
before the step. -/
def Step.ReadBack (index : NameIndex) (im : Image) : Step → Answer → Prop
  | .byte v, .offset o => im.byte o = .ok v
  | .uint16 v, .offset o => im.uint16 o = .ok v
  | .int16 v, .offset o => im.int16 o = .ok v
  | .uint32 v, .offset o => im.uint32 o = .ok v
  | .uint64 v, .offset o => im.uint64 o = .ok v
  | .text s, .offset o | .freshText s, .offset o => Utf8.NulFree s → im.text o = .ok s
  | .pointer target, .offset o => im.pointer o = .ok target
  | .count n, .offset o => im.count o = .ok n
  | .array targets, .offset o => im.array o = .ok targets
  | .type t, .offset o => Plain t.texts [t] → ∃ past, readType im o = .ok (t, past)
  | .signature ts, .offset o =>
    Plain (ts.flatMap TypeExpr.texts) ts → readSignature im o = .ok ts
  | .method module m, .offset o =>
    Plain m.texts m.signature → ∃ s, im.method o = .ok s ∧ s.Mirrors module m
  | .property module p, .offset o =>
    Plain p.texts (accessorTypes p.getter? ++ accessorTypes p.setter?) →
      ∃ s, im.property o = .ok s ∧ s.Mirrors module p
  | .declaration module d, .offset o => d.Plain → ∃ base past body, im.base o = .ok (base, past) ∧
    base.Mirrors module d.info d.flagByte ∧
      im.body o past (RecordTag.ofByte base.flagByte) = .ok body ∧ body.Mirrors module d.body
  | .addName _ _, .nothing => True
  | .writeIndex, .slots os => List.Forall₂ (fun entries slot =>
    im.arrayOrEmpty slot = .ok (entries.map Prod.snd)) index.buckets.toList os
  | _, _ => False

/-! ## Growth -/

theorem Step.grows_writing {x : Write Offset} (h : Write.Grows x) :
    Keeps Builder.Grew (Step.writing x) :=
  (Build.grows_write h).bind fun _ => keeps_pure _

theorem Step.grows_run (step : Step) : Keeps Builder.Grew step.run := by
  cases step with
  | byte | uint16 | int16 | uint32 | uint64 | freshText =>
    exact grows_writing (Write.grows_bytes _)
  | text s => exact grows_writing (Write.grows_text s)
  | pointer target => exact grows_writing (Write.grows_pointer target)
  | count n => exact grows_writing (Write.grows_count n)
  | array targets => exact grows_writing (Write.grows_array targets)
  | type t => exact grows_writing t.grows_write
  | signature ts => exact grows_writing (grows_writeSignature ts)
  | method module m => exact grows_writing (m.grows_write module)
  | property module p => exact grows_writing (p.grows_write module)
  | declaration module d => exact (Build.grows_declare module d).bind fun _ => keeps_pure _
  | addName name o => exact (Build.grows_addName name o).bind fun _ => keeps_pure _
  | writeIndex => exact Build.grows_writeIndex.bind fun _ => keeps_pure _

namespace Builder

theorem grew_apply (b : Builder) (step : Step) : b.Grew (b.apply step).2 := step.grows_run b

theorem grew_applyAll (b : Builder) (steps : List Step) : b.Grew (b.applyAll steps).2 := by
  induction steps generalizing b with
  | nil => exact refl_of Grew b
  | cons step rest ih => exact trans_of Grew (b.grew_apply step) (ih _)

theorem length_applyAll (b : Builder) (steps : List Step) :
    (b.applyAll steps).1.length = steps.length := by
  induction steps generalizing b with
  | nil => rfl
  | cons step rest ih => exact congrArg (· + 1) (ih (b.apply step).2)

theorem applyAll_append (b : Builder) (before after : List Step) :
    b.applyAll (before ++ after) =
      ((b.applyAll before).1 ++ ((b.applyAll before).2.applyAll after).1,
        ((b.applyAll before).2.applyAll after).2) := by
  induction before generalizing b with
  | nil => rfl
  | cons step rest ih =>
    show (_ :: ((b.apply step).2.applyAll (rest ++ after)).1,
      ((b.apply step).2.applyAll (rest ++ after)).2) = _
    rw [ih]
    rfl

/-- A session goes on from the builder that it has when it comes to a step. -/
theorem applyAll_at (b : Builder) {steps : List Step} {i : Nat} {step : Step}
    (here : steps[i]? = some step) :
    ∃ before after now, (b.applyAll before).2 = now ∧
      (b.applyAll steps).1[i]? = some (now.apply step).1 ∧
        (b.applyAll steps).2 = ((now.apply step).2.applyAll after).2 := by
  induction steps generalizing b i with
  | nil => cases here
  | cons first rest ih =>
    cases i with
    | zero =>
      obtain rfl := Option.some.inj here
      exact ⟨[], rest, b, rfl, rfl, rfl⟩
    | succ i =>
      obtain ⟨before, after, now, reached, answer, last⟩ := ih (b.apply first).2 here
      exact ⟨first :: before, after, now, reached, answer, last⟩

end Builder

/-! ## One step -/

section

variable {b b' : Builder} {answer : Answer}

theorem Step.returns_writing {x : Write Offset} (run : Returns (Step.writing x) b answer b') :
    ∃ o, Returns x b.writer o b'.writer ∧ answer = .offset o := by
  unfold Step.writing at run
  simp only [returns_bind, returns_pure, Build.returns_write] at run
  obtain ⟨o, c, ⟨run, -⟩, rfl, rfl⟩ := run
  exact ⟨o, run, rfl⟩

theorem Step.bytes_placed {data : List UInt8}
    (run : Returns (Step.writing (Write.bytes data)) b answer b') :
    ∃ o, answer = .offset o ∧ o ≠ 0 ∧ ∀ {im : Image}, b'.writer.In im → im.Has o data := by
  obtain ⟨o, write, rfl⟩ := returns_writing run
  obtain ⟨ne, has⟩ := Write.bytes_placed write
  exact ⟨o, rfl, ne, has⟩

/-- A step that succeeds has placed what it wrote, and it is read in every image that begins with the
heap it left. -/
theorem Step.run_keeps {step : Step} (sound : b.writer.Sound) (run : Returns step.run b answer b') :
    step.Placed b.index answer ∧
      ∀ {im : Image}, b'.writer.In im → step.ReadBack b.index im answer := by
  have pos {o : Nat} (le : b.writer.heap.size ≤ o) : o ≠ 0 :=
    (b.writer.heap.size_pos.trans_le le).ne'
  cases step with
  | byte v =>
    obtain ⟨o, rfl, ne, has⟩ := bytes_placed run
    exact ⟨ne, fun inside => Image.byte_of_has (has inside)⟩
  | uint16 v =>
    obtain ⟨o, rfl, ne, has⟩ := bytes_placed run
    exact ⟨ne, fun inside => Image.uint16_of_has (has inside)⟩
  | int16 v =>
    obtain ⟨o, rfl, ne, has⟩ := bytes_placed run
    exact ⟨ne, fun inside => Image.int16_of_has (has inside)⟩
  | uint32 v =>
    obtain ⟨o, rfl, ne, has⟩ := bytes_placed run
    exact ⟨ne, fun inside => Image.uint32_of_has (has inside)⟩
  | uint64 v =>
    obtain ⟨o, rfl, ne, has⟩ := bytes_placed run
    exact ⟨ne, fun inside => Image.uint64_of_has (has inside)⟩
  | text s =>
    obtain ⟨o, write, rfl⟩ := returns_writing run
    have stores := Write.text_stores sound write
    exact ⟨stores.1, fun inside free => Utf8.upToNul_eq_self free ▸ inside.text_eq stores⟩
  | freshText s =>
    obtain ⟨o, write, rfl⟩ := returns_writing run
    have stores := Write.freshText_stores write
    exact ⟨stores.1, fun inside free => Utf8.upToNul_eq_self free ▸ inside.text_eq stores⟩
  | pointer target =>
    obtain ⟨o, write, rfl⟩ := returns_writing run
    obtain ⟨le, rfl, heap⟩ := Write.returns_pointer.1 write
    rw [← heap]
    exact ⟨pos le_rfl, fun inside => (inside.pointer_reads le).1⟩
  | count n =>
    obtain ⟨o, write, rfl⟩ := returns_writing run
    obtain ⟨le, rfl, heap⟩ := Write.returns_count.1 write
    rw [← heap]
    exact ⟨pos le_rfl, fun inside => (inside.count_reads le).1⟩
  | array targets =>
    obtain ⟨o, write, rfl⟩ := returns_writing run
    obtain ⟨-, -, rfl, -⟩ := Write.returns_array.1 write
    exact ⟨pos le_rfl, fun inside => Write.array_reads write inside⟩
  | type t =>
    obtain ⟨o, write, rfl⟩ := returns_writing run
    exact ⟨pos (TypeExpr.le_of_write write), fun inside plain =>
      ⟨_, TypeExpr.write_reads sound write inside (plain.types t List.mem_cons_self) plain.texts⟩⟩
  | signature ts =>
    obtain ⟨o, write, rfl⟩ := returns_writing run
    exact ⟨pos (le_of_writeSignature write), fun inside plain =>
      writeSignature_reads sound write inside plain.types fun t ht s hs =>
        plain.texts s (List.mem_flatMap.2 ⟨t, ht, hs⟩)⟩
  | method module m =>
    obtain ⟨o, write, rfl⟩ := returns_writing run
    exact ⟨pos (Method.le_of_write write), fun inside => Method.write_reads sound write inside⟩
  | property module p =>
    obtain ⟨o, write, rfl⟩ := returns_writing run
    exact ⟨pos (Property.le_of_write write), fun inside => Property.write_reads sound write inside⟩
  | declaration module d =>
    simp only [Step.run, returns_bind, returns_pure] at run
    obtain ⟨o, c, declare, rfl, rfl⟩ := run
    obtain ⟨w, write, grew, -, -⟩ := Build.declare_returns declare
    refine ⟨pos (Declaration.write_bounds write).1, fun inside plain => ?_⟩
    obtain ⟨past, body, base, read, mirrors⟩ :=
      Declaration.write_reads sound write (grew.within inside) plain
    refine ⟨_, past, body, base, ?_, ?_, mirrors⟩
    · exact Info.mirrors_stored (fun s hs => plain.texts s (List.mem_append_left _ hs)) _ _
    · show Image.body _ o past (RecordTag.ofByte d.flagByte) = _
      rw [d.ofByte_flagByte.2, read]
  | addName name o =>
    simp only [Step.run, returns_bind, returns_pure] at run
    obtain ⟨_, _, -, rfl, -⟩ := run
    exact ⟨trivial, fun _ => trivial⟩
  | writeIndex =>
    simp only [Step.run, returns_bind, returns_pure] at run
    obtain ⟨slots, c, run, rfl, rfl⟩ := run
    have reads := NameIndex.write_reads (Build.writeIndex_returns run).1
    exact ⟨reads.imp fun _ _ h => h.1, fun inside => reads.imp fun _ _ h => h.2 _ inside⟩

end

/-! ## Sessions -/

/-- **Sessions are sound**, failures included. In a session from a fresh writer, look at any step, with
whatever comes before and after it: the heap after the step begins with the heap before it; if the step
succeeded, it has placed what it wrote, and that is read back over the heap at the end of the session
(which is in one block of memory, as all bytes are). -/
theorem session_sound {widths : Widths} {w : Writer} {index : NameIndex} {b b' last : Builder}
    {before after : List Step} {step : Step} {result : Except Error Answer}
    {earlier later : List (Except Error Answer)} (start : Writer.empty widths = .ok w)
    (first : Builder.applyAll ⟨w, index⟩ before = (earlier, b))
    (here : b.apply step = (result, b')) (rest : b'.applyAll after = (later, last)) :
    Builder.applyAll ⟨w, index⟩ (before ++ step :: after) = (earlier ++ result :: later, last) ∧
      b.writer.heap.bytes.toList <+: b'.writer.heap.bytes.toList ∧
      ∀ answer, result = .ok answer → step.Placed b.index answer ∧
        (last.writer.heap.size ≤ Heap.largestBlock →
          step.ReadBack b.index ⟨last.writer.heap.bytes, w.format⟩ answer) := by
  have grewBefore := Builder.grew_applyAll ⟨w, index⟩ before
  have grewStep := b.grew_apply step
  have grewAfter := b'.grew_applyAll after
  rw [first] at grewBefore
  rw [here] at grewStep
  rw [rest] at grewAfter
  refine ⟨?_, grewStep.heap, ?_⟩
  · rw [Builder.applyAll_append, first]
    dsimp only
    rw [Builder.applyAll, here]
    dsimp only
    rw [rest]
  · rintro answer rfl
    have sound : b.writer.Sound := grewBefore.sound (Writer.sound_empty start)
    obtain ⟨placed, read⟩ := Step.run_keeps sound here
    refine ⟨placed, fun fits => read ⟨?_, grewAfter.heap, fits⟩⟩
    exact (grewStep.format.trans grewBefore.format).symm

/-- An array that fails after two of its pointers leaves a text behind it readable. -/
theorem session_sound_past_failure :
    let w : Writer := { format := ⟨⟨1, 1⟩, by decide⟩ }
    let session := Builder.applyAll ⟨w, .empty 1⟩
      [.array [1, 2, 300], .freshText "ab", .pointer 256]
    session.1 = [.error (.offsetOverflow 300 1), .ok (.offset 4), .error (.offsetOverflow 256 1)] ∧
      Image.text ⟨session.2.writer.heap.bytes, w.format⟩ 4 = .ok "ab" := by
  intro w session
  have sound := @session_sound ⟨1, 1⟩ w (.empty 1) _ _ _ [.array [1, 2, 300]] [.pointer 256]
    (.freshText "ab") _ _ _ rfl rfl rfl rfl
  refine ⟨rfl, (sound.2.2 (.offset 4) rfl).2 (by decide) (by decide)⟩

end DeclArchive
