import DeclArchive.Proofs.Declaration
import DeclArchive.Proofs.NameIndex
import DeclArchive.Record.Register

/-!
# Registering keeps what was written

`Builder.Grew` relates a builder to every later one: the heap only grows, and interned texts stay where
the table says. Every operation on a builder keeps it, also one that fails.

A declaration enters the index and the log when its record is complete, and nothing else does
(`Build.declare_returns`, `Build.declare_run`, `Build.declare_stops`).
-/

namespace DeclArchive

/-! ## Builders that grow -/

/-- The later builder has what the earlier one had. -/
structure Builder.Grew (b b' : Builder) : Prop where
  format : b'.writer.format = b.writer.format
  heap : b.writer.heap.bytes.toList <+: b'.writer.heap.bytes.toList
  sound : b.writer.Sound → b'.writer.Sound

instance : IsPreorder Builder Builder.Grew where
  refl _ := ⟨rfl, List.prefix_rfl, id⟩
  trans _ _ _ h k := ⟨k.format.trans h.format, h.heap.trans k.heap, k.sound ∘ h.sound⟩

theorem Builder.Grew.within {b b' : Builder} {im : Image} (h : b.Grew b')
    (inside : b'.writer.In im) : b.writer.In im :=
  ⟨inside.format.trans h.format, h.heap.trans inside.heap, inside.fits⟩

theorem Writer.Grew.builder {w w' : Writer} (h : w.Grew w') (index index' : NameIndex) :
    Builder.Grew ⟨w, index⟩ ⟨w', index'⟩ :=
  ⟨h.format, h.heap, h.sound⟩

namespace Build

variable {α : Type} {b b' : Builder}

/-- A computation that only writes runs on the writer, and leaves the index. -/
theorem run_write (x : Write α) (b : Builder) :
    (write x).run.run b = ((x.run.run b.writer).1, ⟨(x.run.run b.writer).2, b.index⟩) := rfl

theorem run_write_eq {x : Write α} {result : Except Error α} :
    (write x).run.run b = (result, b') ↔ x.run.run b.writer = (result, b'.writer) ∧ b.index = b'.index := by
  rcases b' with ⟨w', index'⟩
  rw [run_write]
  rcases x.run.run b.writer with ⟨result, v⟩
  constructor
  · intro h
    cases h
    exact ⟨rfl, rfl⟩
  · rintro ⟨h, rfl⟩
    cases h
    rfl

@[simp] theorem returns_write {x : Write α} {a : α} :
    Returns (write x) b a b' ↔ Returns x b.writer a b'.writer ∧ b.index = b'.index := run_write_eq

@[simp] theorem stops_write {x : Write α} {e : Error} :
    Stops (write x) b e b' ↔ Stops x b.writer e b'.writer ∧ b.index = b'.index := run_write_eq

theorem grows_write {x : Write α} (h : Write.Grows x) : Keeps Builder.Grew (write x) := by
  rintro ⟨w, index⟩
  exact (h w).builder index index

/-- An event changes no byte. -/
theorem grows_note (event : Event) : Keeps Builder.Grew (write (Write.note event)) :=
  fun _ => ⟨rfl, List.prefix_rfl, id⟩

theorem grows_addName (name : String) (o : Offset) : Keeps Builder.Grew (addName name o) := by
  unfold addName
  refine keeps_get.bind fun b => ?_
  dsimp only
  split_ifs
  · exact (grows_note _).bind fun _ => keeps_modify fun _ => ⟨rfl, List.prefix_rfl, id⟩
  · exact keeps_modify fun _ => ⟨rfl, List.prefix_rfl, id⟩

theorem grows_declare (module : UInt16) (d : Declaration) :
    Keeps Builder.Grew (declare module d) :=
  (grows_write (d.grows_write module)).bind fun _ => (grows_addName _ _).bind fun _ =>
    (grows_note _).bind fun _ => keeps_pure _

theorem grows_writeIndex : Keeps Builder.Grew writeIndex :=
  keeps_get.bind fun b => grows_write b.index.grows_write

/-! ## What runs return -/

theorem returns_note {event : Event} {u : Unit} :
    Returns (write (Write.note event)) b u b' ↔
      b' = ⟨{ b.writer with log := b.writer.log.push event }, b.index⟩ := by
  rcases b with ⟨w, index⟩
  constructor
  · intro h
    cases h
    rfl
  · rintro rfl
    rfl

theorem returns_addName_new {name : String} (new : b.index.contains name = false) (o : Offset) :
    Returns (addName name o) b ⟨⟩ ⟨b.writer, b.index.add name o⟩ := by
  unfold addName
  refine returns_bind.2 ⟨b, b, returns_get.2 ⟨rfl, rfl⟩, ?_⟩
  rw [if_neg (Bool.not_eq_true _ ▸ new)]
  exact returns_modify.2 rfl

/-- A name that is in the index is added once more, and that is noted. -/
theorem returns_addName_again {name : String} (known : b.index.contains name = true) (o : Offset) :
    Returns (addName name o) b ⟨⟩
      ⟨{ b.writer with log := b.writer.log.push (.duplicateName name) }, b.index.add name o⟩ := by
  unfold addName
  refine returns_bind.2 ⟨b, b, returns_get.2 ⟨rfl, rfl⟩, ?_⟩
  rw [if_pos known]
  exact returns_bind.2 ⟨⟨⟩, _, returns_note.2 rfl, returns_modify.2 rfl⟩

/-- A name that is added enters the index; the log reports no record. -/
theorem addName_run (name : String) (o : Offset) (b : Builder) :
    ∃ log : Log, log.records = b.writer.log.records ∧
      Returns (addName name o) b ⟨⟩ ⟨{ b.writer with log }, b.index.add name o⟩ := by
  cases known : b.index.contains name with
  | false => exact ⟨b.writer.log, rfl, returns_addName_new known o⟩
  | true =>
    refine ⟨b.writer.log.push (.duplicateName name), ?_, returns_addName_again known o⟩
    rw [Log.records_push]
    exact List.append_nil _

theorem addName_returns {name : String} {o : Offset} {u : Unit}
    (run : Returns (addName name o) b u b') :
    b'.index = b.index.add name o ∧ b'.writer.log.records = b.writer.log.records := by
  obtain ⟨log, records, known⟩ := addName_run name o b
  obtain rfl := (Prod.mk.inj (run.symm.trans known)).2
  exact ⟨rfl, records⟩

/-- A declaration enters the index, and the log reports its record, once that is complete. -/
theorem declare_returns {module : UInt16} {d : Declaration} {record : Offset}
    (run : Returns (declare module d) b record b') :
    ∃ w, Returns (d.write module) b.writer record w ∧ Builder.Grew ⟨w, b.index⟩ b' ∧
      b'.index = b.index.add d.info.publicName record ∧
        b'.writer.log.records = b.writer.log.records ++ [record] := by
  unfold declare at run
  simp only [returns_bind, returns_pure] at run
  obtain ⟨_, ⟨w, index⟩, first, _, c, second, _, c', third, rfl, rfl⟩ := run
  obtain ⟨first, rfl⟩ := returns_write.1 first
  obtain ⟨added, records⟩ := addName_returns second
  have grew := trans_of Builder.Grew ((grows_addName _ _).of_returns second)
    ((grows_note _).of_returns third)
  obtain rfl := returns_note.1 third
  refine ⟨w, first, grew, added, ?_⟩
  show Log.records (c.writer.log.push _) = _
  rw [Log.records_push, records, ((d.grows_write module).of_returns first).records]
  rfl

section

variable {module : UInt16} {d : Declaration} {record : Offset} {w : Writer}

/-- A declaration is registered by writing it, adding its name and noting that. -/
theorem returns_declare {c : Builder} (run : Returns (d.write module) b.writer record w)
    (added : Returns (addName d.info.publicName record) ⟨w, b.index⟩ ⟨⟩ c)
    (noted : b' = ⟨{ c.writer with
      log := c.writer.log.push (.recordWritten d.body.kind d.info.publicName record) }, c.index⟩) :
    Returns (declare module d) b record b' := by
  refine returns_bind.2 ⟨record, ⟨w, b.index⟩, returns_write.2 ⟨run, rfl⟩, ?_⟩
  exact returns_bind.2 ⟨⟨⟩, c, added, returns_bind.2 ⟨⟨⟩, b', returns_note.2 noted,
    returns_pure.2 ⟨rfl, rfl⟩⟩⟩

/-- A declaration whose record is complete enters the index; all else that changes is the log. -/
theorem declare_run (run : Returns (d.write module) b.writer record w) :
    ∃ log : Log, Returns (declare module d) b record
      ⟨{ w with log }, b.index.add d.info.publicName record⟩ := by
  obtain ⟨_, -, added⟩ := addName_run d.info.publicName record ⟨w, b.index⟩
  exact ⟨_, returns_declare run added rfl⟩

end

/-- A declaration whose record fails is not registered. -/
theorem declare_stops {module : UInt16} {d : Declaration} {e : Error} {w : Writer}
    (stop : Stops (d.write module) b.writer e w) : Stops (declare module d) b e ⟨w, b.index⟩ :=
  stops_bind.2 (.inl (stops_write.2 ⟨stop, rfl⟩))

/-- Writing the index leaves it as it is. -/
theorem writeIndex_returns {slots : List Offset} (run : Returns writeIndex b slots b') :
    Returns b.index.write b.writer slots b'.writer ∧ b'.index = b.index := by
  unfold writeIndex at run
  obtain ⟨c, d, get, run⟩ := returns_bind.1 run
  obtain ⟨rfl, rfl⟩ := returns_get.1 get
  obtain ⟨run, index⟩ := returns_write.1 run
  exact ⟨run, index.symm⟩

end Build

end DeclArchive
