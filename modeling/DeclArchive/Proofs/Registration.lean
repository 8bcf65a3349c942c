import DeclArchive.Proofs.Container.RoundTrip
import DeclArchive.Proofs.Session

/-!
# Registration

A declaration is registered if and only if its record is complete (`registered_iff_complete`). Whatever its
kind, the record is the last thing that is written, so it is at the end of the heap and has the length of its
kind (`Declaration.write_size`). A run that fails before that leaves the index as it is
(`Build.declare_stops`), and a category fails before anything is written (`Build.declare_category`).
-/

namespace DeclArchive

section

variable {w w₁ w₂ w' : Writer} {f : Format} {m n : Nat} {o : Offset} {module : UInt16}

/-! ## The length of a record -/

/-- The later writer has `n` more bytes, in the same format. -/
def Writer.Longer (f : Format) (n : Nat) (w w' : Writer) : Prop :=
  w.format = f → w'.format = f ∧ w'.heap.size = w.heap.size + n

theorem Writer.Longer.trans (first : w.Longer f m w₁) (second : w₁.Longer f n w') :
    w.Longer f (m + n) w' := by
  intro format
  obtain ⟨format, size⟩ := first format
  obtain ⟨format, size'⟩ := second format
  exact ⟨format, by omega⟩

theorem Writer.longer_append (data : List UInt8) : w.Longer f data.length (w.append data) :=
  fun format => ⟨format, w.heap.size_append data⟩

theorem longer_pointer {target : Offset} (run : Returns (Write.pointer target) w o w') :
    w.Longer f f.pointerWidth w' := by
  obtain ⟨-, -, rfl⟩ := Write.returns_pointer.1 run
  rintro rfl
  exact ⟨rfl, (w.heap.size_append _).trans (by rw [LittleEndian.length_encode])⟩

theorem WrittenMembers.longer_writePointers {offsets : WrittenMembers} {u : Unit}
    (run : Returns offsets.writePointers w u w') : w.Longer f (4 * f.pointerWidth + 2) w' := by
  unfold writePointers at run
  simp only [returns_bind, Write.returns_int16, returns_pure] at run
  obtain ⟨_, w₁, run₁, _, w₂, run₂, _, w₃, run₃, _, w₄, run₄, _, _, ⟨-, rfl⟩, -, rfl⟩ := run
  have pointers := (longer_pointer (f := f) run₁).trans <| (longer_pointer run₂).trans <|
    (longer_pointer run₃).trans (longer_pointer run₄)
  intro format
  obtain ⟨format, size⟩ := pointers.trans (Writer.longer_append (LittleEndian.encode 2 _)) format
  rw [LittleEndian.length_encode] at size
  exact ⟨format, by omega⟩

/-- A record begins with its base. -/
theorem Info.size_of_writeBase {i : Info} {names : Offset} {flags : UInt8} (grew : w.Grew w₁)
    (base : Returns (i.writeBase names flags module) w₁ o w₂) (rest : w₂.Longer w.format n w') :
    w'.heap.size = o + (w.format.pointerWidth + 4 + n) := by
  have format := ((i.grows_writeBase _ _ _).of_returns base).format.trans grew.format
  rw [(rest format).2, writeBase_size base, (writeBase_bounds base).1, grew.format]
  exact Nat.add_assoc ..

/-- **The record is the last thing that is written**, and has the length of its kind. -/
theorem Declaration.write_size {d : Declaration} (run : Returns (d.write module) w o w') :
    w'.heap.size = o + d.body.recordSize w.format := by
  rcases d with ⟨info, body⟩
  have names {names : Offset} {w₁ : Writer} (run : Returns info.writeNames w names w₁) : w.Grew w₁ :=
    info.grows_writeNames.of_returns run
  cases body with
  | function signature flags =>
    simp only [write, returns_bind, returns_pure] at run
    obtain ⟨_, w₁, run₁, _, w₂, run₂, _, w₃, run₃, _, w₄, run₄, rfl, rfl⟩ := run
    have grew := trans_of _ (names run₁) ((grows_writeSignature _).of_returns run₂)
    rw [Info.size_of_writeBase grew run₃ (longer_pointer run₄), Body.recordSize]
    omega
  | global type =>
    simp only [write, returns_bind, returns_pure] at run
    obtain ⟨_, w₁, run₁, _, w₂, run₂, _, w₃, run₃, _, w₄, run₄, rfl, rfl⟩ := run
    have grew := trans_of _ (names run₁) (type.grows_write.of_returns run₂)
    rw [Info.size_of_writeBase grew run₃ (longer_pointer run₄), Body.recordSize]
    omega
  | code text =>
    simp only [write, returns_bind, returns_pure] at run
    obtain ⟨_, w₁, run₁, _, w₂, run₂, _, w₃, run₃, _, w₄, run₄, rfl, rfl⟩ := run
    have grew := trans_of _ (names run₁) ((Write.grows_text _).of_returns run₂)
    rw [Info.size_of_writeBase grew run₃ (longer_pointer run₄), Body.recordSize]
    omega
  | record kind fields =>
    simp only [write, returns_bind, returns_pure] at run
    obtain ⟨_, w₁, run₁, _, w₂, run₂, _, w₃, run₃, _, w₄, run₄, _, w₅, run₅, rfl, rfl⟩ := run
    have grew := trans_of _ (names run₁) ((grows_writeFields _).of_returns run₂)
    have pointers := (longer_pointer (f := w.format) run₄).trans (longer_pointer run₅)
    rw [Info.size_of_writeBase grew run₃ pointers, Body.recordSize]
    omega
  | protocol members =>
    simp only [write, returns_bind, returns_pure] at run
    obtain ⟨_, w₁, run₁, offsets, w₂, run₂, _, w₃, run₃, _, w₄, run₄, rfl, rfl⟩ := run
    have grew := trans_of _ (names run₁) ((members.grows_write module).of_returns run₂)
    rw [Info.size_of_writeBase grew run₃ (WrittenMembers.longer_writePointers run₄), Body.recordSize]
    omega
  | interface base? members =>
    simp only [write, returns_bind, returns_pure] at run
    obtain ⟨_, w₁, run₁, offsets, v, runMembers, _, w₂, runName, _, w₃, run₃, _, w₄, run₄, _, w₅, run₅,
      rfl, rfl⟩ := run
    have grew := trans_of _ (names run₁) (trans_of _ ((members.grows_write module).of_returns runMembers)
      ((grows_writeTextOrNull _).of_returns runName))
    have pointers := (WrittenMembers.longer_writePointers (f := w.format) run₄).trans (longer_pointer run₅)
    rw [Info.size_of_writeBase grew run₃ pointers, Body.recordSize]
    omega
  | category => exact (returns_throw.1 run).elim

end

/-! ## Registering -/

/-- Nothing is written of a category. -/
theorem Build.declare_category (b : Builder) (module : UInt16) (info : Info) (extended : String)
    (members : Members) : Stops (declare module ⟨info, .category extended members⟩) b
      (.broken (.unmergedCategory info.name extended)) b :=
  declare_stops (stops_throw.2 ⟨rfl, rfl⟩)

/-- A step that only writes leaves the index. -/
theorem Step.index_writing (x : Write Offset) (b : Builder) :
    ((Step.writing x).run.run b).2.index = b.index := by
  unfold Step.writing
  rw [run_bind, Build.run_write]
  rcases x.run.run b.writer with ⟨_ | _, _⟩ <;> rfl

/-- **A declaration is registered if and only if its record is complete.** If writing it fails, wherever that
is, the index is as it was, and the heap begins with what was there; a category fails with everything as it
was. If it succeeds, the index gained one entry at the end of a bucket, the public name with the place of the
record, and the record is behind what was there and is the last thing in the heap, with the length of its
kind. Methods and properties do not enter the index. -/
theorem registered_iff_complete (b : Builder) (module : UInt16) :
    (∀ d : Declaration, Ends
      (fun _ b' => b'.index = b.index ∧ b.writer.heap.bytes.toList <+: b'.writer.heap.bytes.toList)
      (fun record b' => b.index.Gains d.info.publicName record b'.index ∧
        b.writer.heap.bytes.toList <+: b'.writer.heap.bytes.toList ∧ b.writer.heap.size ≤ record ∧
          b'.writer.heap.next = record + d.body.recordSize b.writer.format)
      (Build.declare module d) b) ∧
    (∀ info extended members, Stops (Build.declare module ⟨info, .category extended members⟩) b
      (.broken (.unmergedCategory info.name extended)) b) ∧
    (∀ m, (b.apply (.method module m)).2.index = b.index) ∧
    ∀ p, (b.apply (.property module p)).2.index = b.index := by
  refine ⟨fun d => ?_, Build.declare_category b module, fun m => Step.index_writing _ b,
    fun p => Step.index_writing _ b⟩
  rcases returns_or_stops (d.write module) b.writer with ⟨record, w, run⟩ | ⟨e, w, stop⟩
  · obtain ⟨log, declared⟩ := Build.declare_run run
    have size : w.heap.next = record + _ := Declaration.write_size run
    exact ends_of_returns declared ⟨b.index.gains_add _ _, ((d.grows_write module).of_returns run).heap,
      (Declaration.write_bounds run).1, size⟩
  · exact ends_of_stops (Build.declare_stops stop) ⟨rfl, ((d.grows_write module).of_stops stop).heap⟩

/-- Code named `f` is registered where its six bytes begin, behind its name and its text. -/
theorem registered_iff_complete_code :
    (NameIndex.emptyFor 1).Gains "f" 7 (Sample.index "f") ∧ (Sample.written "f").heap.next = 7 + 6 := by
  have run : Returns (Build.declare 0 (Sample.code "f")) ⟨Sample.modules, .emptyFor 1⟩ 7
      ⟨Sample.written "f", Sample.index "f"⟩ :=
    Sample.returns_declare (by decide) (by decide) (by decide)
  have declared := (registered_iff_complete ⟨Sample.modules, .emptyFor 1⟩ 0).1 (Sample.code "f")
  obtain ⟨gains, -, -, size⟩ := declared.of_returns run
  exact ⟨gains, size⟩

end DeclArchive
