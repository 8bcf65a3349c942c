import DeclArchive.Container.Save
import DeclArchive.Proofs.Container.Stream
import DeclArchive.Proofs.Image

/-!
# The layout of a container

`Parts.bytes` is the container of some parts: the header, the two tables and the heap, without gaps.
Saving succeeds if and only if every number fits its field (`Parts.Fit`) and the stream has room for
these bytes (`Parts.save_returns`, `Parts.save_of_fit`); it then leaves them and nothing else. A save
that stops on the way leaves the zeros that it began with (`Parts.save_stops`).
-/

namespace DeclArchive

/-! ## Sections -/

/-- The bytes of a section. -/
def sectionRun (f : Format) (offsets : List Offset) : List UInt8 :=
  LittleEndian.encode f.countWidth offsets.length ++ Image.pointerRun f offsets

/-- The count and every pointer of a section fit their fields. -/
structure SectionFits (f : Format) (offsets : List Offset) : Prop where
  count : offsets.length ≤ f.largestCount
  pointers : ∀ o ∈ offsets, o ≤ f.largestOffset

theorem pointerBytes_eq_ok {f : Format} {o : Offset} {bytes : List UInt8} :
    pointerBytes f.toWidths o = .ok bytes ↔
      o ≤ f.largestOffset ∧ LittleEndian.encode f.pointerWidth o = bytes := by
  have narrow : ¬ 8 < f.pointer.toNat := Nat.not_lt.2 f.pointerWidth_le
  unfold pointerBytes
  by_cases large : f.largestOffset < o
  · rw [if_pos large]
    exact ⟨fun h => (nomatch h), fun h => absurd h.1 (Nat.not_le.2 large)⟩
  · rw [if_neg large, if_neg narrow, Except.ok.injEq]
    exact ⟨fun h => ⟨Nat.not_lt.1 large, h⟩, fun h => h.2⟩

theorem pointersBytes_eq_ok {f : Format} {offsets : List Offset} {bytes : List (List UInt8)} :
    offsets.mapM (pointerBytes f.toWidths) = .ok bytes ↔
      (∀ o ∈ offsets, o ≤ f.largestOffset) ∧
        offsets.map (LittleEndian.encode f.pointerWidth) = bytes := by
  constructor
  · intro h
    have each := (Except.forall₂_of_mapM h).imp fun _ _ => pointerBytes_eq_ok.1
    clear h
    induction each with
    | nil => exact ⟨nofun, rfl⟩
    | cons first _ ih =>
      exact ⟨List.forall_mem_cons.2 ⟨first.1, ih.1⟩, by rw [List.map_cons, first.2, ih.2]⟩
  · rintro ⟨fit, rfl⟩
    refine Except.mapM_eq_ok (List.forall₂_map_right_iff.2 (List.forall₂_same.2 fun o ho => ?_))
    exact pointerBytes_eq_ok.2 ⟨fit o ho, rfl⟩

theorem sectionBytes_eq_ok {f : Format} {offsets : List Offset} {bytes : List UInt8} :
    sectionBytes f offsets = .ok bytes ↔ SectionFits f offsets ∧ sectionRun f offsets = bytes := by
  unfold sectionBytes
  by_cases large : f.largestCount < offsets.length
  · rw [if_pos large]
    exact ⟨fun h => (nomatch h), fun h => absurd h.1.count (Nat.not_le.2 large)⟩
  · rw [if_neg large, Except.bind_eq_ok]
    constructor
    · rintro ⟨pointers, run, h⟩
      cases h
      obtain ⟨fit, rfl⟩ := pointersBytes_eq_ok.1 run
      exact ⟨⟨Nat.not_lt.1 large, fit⟩, rfl⟩
    · rintro ⟨fit, rfl⟩
      exact ⟨_, pointersBytes_eq_ok.2 ⟨fit.pointers, rfl⟩, rfl⟩

theorem Header.encode_eq_ok {f : Format} {h : Header} {bytes : List UInt8}
    (widths : h.widths = f.toWidths) :
    h.encode = .ok bytes ↔
      (∀ place ∈ [h.moduleTable, h.globalTable, h.heap], place ≤ f.largestOffset) ∧
        f.pointer :: f.count :: Image.pointerRun f [h.moduleTable, h.globalTable, h.heap] =
          bytes := by
  unfold Header.encode
  rw [Except.bind_eq_ok, widths]
  constructor
  · rintro ⟨places, run, h⟩
    cases h
    obtain ⟨fit, rfl⟩ := pointersBytes_eq_ok.1 run
    exact ⟨fit, rfl⟩
  · rintro ⟨fit, rfl⟩
    exact ⟨_, pointersBytes_eq_ok.2 ⟨fit, rfl⟩, rfl⟩

/-! ## Containers -/

namespace Parts

variable (parts : Parts)

/-- The header of a container with these parts. -/
def header : Header where
  widths := parts.format.toWidths
  moduleTable := Header.size parts.format.toWidths
  globalTable := Header.size parts.format.toWidths + (sectionRun parts.format parts.modules).length
  heap := Header.size parts.format.toWidths + (sectionRun parts.format parts.modules).length +
    (sectionRun parts.format parts.slots).length

/-- The places that the header holds. -/
def places : List Nat := [parts.header.moduleTable, parts.header.globalTable, parts.header.heap]

/-- The container with these parts. -/
def bytes : List UInt8 :=
  parts.format.pointer :: parts.format.count :: Image.pointerRun parts.format parts.places ++
    sectionRun parts.format parts.modules ++ sectionRun parts.format parts.slots ++
      parts.heap.bytes.toList

theorem length_front : (parts.format.pointer :: parts.format.count ::
    Image.pointerRun parts.format parts.places).length = Header.size parts.format.toWidths := by
  simp only [List.length_cons, Image.length_pointerRun, places, List.length_nil, Header.size]
  show 3 * parts.format.pointer.toNat + 1 + 1 = _
  omega

/-- Every number in the container fits its field. -/
structure Fit : Prop where
  modules : SectionFits parts.format parts.modules
  slots : SectionFits parts.format parts.slots
  places : ∀ place ∈ parts.places, place ≤ parts.format.largestOffset

/-- What saving these parts reports. -/
def summary : Summary where
  modules := parts.modules.length
  declarations := parts.declarations
  buckets := parts.slots.length
  heapSize := parts.heap.size
  fileSize := parts.bytes.length

end Parts

theorem Streaming.returns_of {α : Type} {r : Except Error α} {s s' : Stream} {a : α} :
    Returns (Streaming.of r) s a s' ↔ r = .ok a ∧ s = s' := by
  cases r with
  | ok x =>
    show Returns (pure x) s a s' ↔ _
    rw [returns_pure, Except.ok.injEq]
  | error e =>
    show Returns (throw e) s a s' ↔ _
    rw [returns_throw]
    exact ⟨False.elim, fun h => (nomatch h.1)⟩

theorem Streaming.stops_of {α : Type} {r : Except Error α} {s s' : Stream} {e : Error} :
    Stops (Streaming.of r) s e s' ↔ r = .error e ∧ s = s' := by
  cases r with
  | ok x =>
    show Stops (pure x : Streaming α) s e s' ↔ _
    rw [stops_pure]
    exact ⟨False.elim, fun h => (nomatch h.1)⟩
  | error e' =>
    show Stops (throw e' : Streaming α) s e s' ↔ _
    rw [stops_throw, Except.error.injEq]

namespace Parts

variable {parts : Parts} {s s' : Stream}

/-- The zeros that a save begins with. -/
def room (parts : Parts) : Array UInt8 := Array.replicate (Header.size parts.format.toWidths) 0

theorem length_room (parts : Parts) :
    parts.room.toList.length = Header.size parts.format.toWidths := by
  rw [room, Array.length_toList, Array.size_replicate]

theorem length_layout (parts : Parts) : parts.bytes.length = Header.size parts.format.toWidths +
    (sectionRun parts.format parts.modules).length + (sectionRun parts.format parts.slots).length +
      parts.heap.bytes.toList.length := by
  rw [bytes, List.length_append, List.length_append, List.length_append, parts.length_front]

theorem head_room (parts : Parts) : parts.room.toList.head? = some 0 := by
  rw [room, Array.toList_replicate, List.head?_replicate, if_neg]
  unfold Header.size
  omega

/-- The places that a save writes into the header are those where it wrote the parts. -/
theorem header_of_holds {s₁ s₂ s₃ : Stream}
    (holds₁ : s₁.Holds s parts.room.toList (s.position + parts.room.toList.length))
    (holds₂ : s₂.Holds s (parts.room.toList ++ sectionRun parts.format parts.modules)
      (s.position + (parts.room.toList ++ sectionRun parts.format parts.modules).length))
    (holds₃ : s₃.Holds s (parts.room.toList ++ sectionRun parts.format parts.modules ++
      sectionRun parts.format parts.slots) (s.position + (parts.room.toList ++
        sectionRun parts.format parts.modules ++ sectionRun parts.format parts.slots).length)) :
    ({ widths := parts.format.toWidths, moduleTable := s₁.position - s.position
       globalTable := s₂.position - s.position, heap := s₃.position - s.position } : Header) =
      parts.header := by
  rw [holds₁.position, holds₂.position, holds₃.position]
  simp only [Nat.add_sub_cancel_left, List.length_append, length_room]
  rfl

/-- Saving leaves the container and nothing else, wherever the stream was. -/
theorem save_returns {summary : Summary} (inside : s.position ≤ s.content.size)
    (run : Returns parts.save s summary s') :
    parts.Fit ∧ summary = parts.summary ∧
      s'.Holds s parts.bytes (s.position + parts.bytes.length) := by
  unfold Parts.save at run
  simp only [returns_bind, Stream.returns_tell, Streaming.returns_of, returns_pure, and_assoc,
    exists_and_left, exists_eq_left'] at run
  obtain ⟨_, s₁, zeros, modules, section₁, _, s₂, write₁, slots, section₂, _, s₃, write₂, _, s₄,
    write₃, _, s₅, seek, head, header, _, s₆, write₄, _, s₇, seek', rfl, rfl⟩ := run
  obtain ⟨fit₁, rfl⟩ := sectionBytes_eq_ok.1 section₁
  obtain ⟨fit₂, rfl⟩ := sectionBytes_eq_ok.1 section₂
  have holds₁ : s₁.Holds s parts.room.toList (s.position + parts.room.toList.length) :=
    (Stream.holds_self inside).write_behind inside zeros
  have holds₂ := holds₁.write_behind inside write₁
  have holds₃ := holds₂.write_behind inside write₂
  have holds₄ := holds₃.write_behind inside write₃
  rw [header_of_holds holds₁ holds₂ holds₃] at header
  obtain ⟨fit₃, bytes⟩ := (Header.encode_eq_ok rfl).1 header
  -- the header takes the place of the zeros, and has as many bytes
  have same : head.toArray.toList.length = parts.room.toList.length := by
    rw [← bytes, length_room]
    exact parts.length_front
  have holds₅ := holds₄.seek seek
  rw [List.append_assoc, List.append_assoc] at holds₅
  have holds₇ := (holds₅.write_front inside same write₄).seek seek'
  have all : head.toArray.toList ++ ((sectionRun parts.format parts.modules).toArray.toList ++
      ((sectionRun parts.format parts.slots).toArray.toList ++ parts.heap.bytes.toList)) =
        parts.bytes := by
    rw [← bytes, Parts.bytes, List.append_assoc, List.append_assoc]
    rfl
  have stop : s₄.position = s.position + parts.bytes.length := by
    rw [holds₄.position, length_layout]
    simp only [List.length_append, length_room]
  rw [all, stop] at holds₇
  refine ⟨⟨fit₁, fit₂, fit₃⟩, ?_, holds₇⟩
  rw [stop, Nat.add_sub_cancel_left]
  rfl

/-- There was a number that does not fit or no room, and at the front of a stream a zero is left, if
anything. -/
structure Stopped (parts : Parts) (s s' : Stream) : Prop where
  cause : ¬ (parts.Fit ∧ s.Takes parts.bytes.length)
  front : s.position = 0 → ∀ b, s'.content[0]? = some b → b = 0

variable {out : List UInt8} {position : Nat} {t : Stream}

theorem stopped_of_error {α : Type} {r : Except Error α} {x : α} {e : Error}
    (holds : t.Holds s out position) (zero : out.head? = some 0) (bad : r = .error e)
    (fine : parts.Fit → r = .ok x) : parts.Stopped s t := by
  refine ⟨fun h => ?_, fun front b first => ?_⟩
  · exact nomatch bad.symm.trans (fine h.1)
  · rw [holds.head zero front] at first
    exact (Option.some.inj first).symm

theorem stopped_of_write (inside : s.position ≤ s.content.size)
    (holds : t.Holds s out (s.position + out.length)) (zero : out.head? = some 0)
    {data : Array UInt8} {e : Error} (stop : Stops (Stream.write data) t e s')
    (part : out.length + data.size ≤ parts.bytes.length) : parts.Stopped s s' := by
  rw [← Array.length_toList, ← List.length_append] at part
  refine ⟨fun h => holds.not_takes_of_stops inside stop (h.2.mono part), fun front b first => ?_⟩
  rw [holds.head_of_stops zero front stop] at first
  exact (Option.some.inj first).symm

/-- **A save that stops** has met a number that does not fit, or a stream without room. -/
theorem save_stops {e : Error} (inside : s.position ≤ s.content.size)
    (run : Stops parts.save s e s') : parts.Stopped s s' := by
  have total := parts.length_layout
  have size := parts.length_room
  have start := Stream.holds_self inside
  have zero := parts.head_room
  have zero_append {x y : List UInt8} (h : x.head? = some 0) : (x ++ y).head? = some 0 := by
    rw [List.head?_append, h]
    rfl
  unfold Parts.save at run
  simp only [stops_bind, Stream.stops_tell, Stream.returns_tell, Stream.stops_seek,
    Streaming.stops_of, Streaming.returns_of, stops_pure, false_or, or_false, and_assoc,
    exists_and_left, exists_eq_left', and_false, exists_false] at run
  -- the zeros
  obtain stop | ⟨_, s₁, zeros, run⟩ := run
  · have none := start.not_takes_of_stops inside stop
    refine ⟨fun h => none (h.2.mono ?_), fun front => Stream.head_of_stops front zero stop⟩
    show parts.room.toList.length ≤ _
    omega
  have holds₁ : s₁.Holds s parts.room.toList (s.position + parts.room.toList.length) :=
    start.write_behind inside zeros
  -- the table of the modules
  obtain ⟨bad, rfl⟩ | ⟨modules, section₁, run⟩ := run
  · exact stopped_of_error holds₁ zero bad fun fit => sectionBytes_eq_ok.2 ⟨fit.modules, rfl⟩
  obtain ⟨-, rfl⟩ := sectionBytes_eq_ok.1 section₁
  obtain stop | ⟨_, s₂, write₁, run⟩ := run
  · refine stopped_of_write inside holds₁ zero stop ?_
    rw [List.size_toArray]
    omega
  have holds₂ := holds₁.write_behind inside write₁
  -- the table of the names
  obtain ⟨bad, rfl⟩ | ⟨slots, section₂, run⟩ := run
  · exact stopped_of_error holds₂ (zero_append zero) bad fun fit =>
      sectionBytes_eq_ok.2 ⟨fit.slots, rfl⟩
  obtain ⟨-, rfl⟩ := sectionBytes_eq_ok.1 section₂
  obtain stop | ⟨_, s₃, write₂, run⟩ := run
  · refine stopped_of_write inside holds₂ (zero_append zero) stop ?_
    simp only [List.length_append, List.size_toArray]
    omega
  have holds₃ := holds₂.write_behind inside write₂
  -- the heap
  obtain stop | ⟨_, s₄, write₃, _, s₅, seek, run⟩ := run
  · refine stopped_of_write inside holds₃ (zero_append (zero_append zero)) stop ?_
    simp only [List.length_append, ← Array.length_toList]
    omega
  have holds₅ := (holds₃.write_behind inside write₃).seek seek
  -- the header, which has the room that the zeros had
  rw [header_of_holds holds₁ holds₂ holds₃] at run
  obtain ⟨bad, rfl⟩ | ⟨head, header, stop⟩ := run
  · exact stopped_of_error holds₅ (zero_append (zero_append (zero_append zero))) bad fun fit =>
      (Header.encode_eq_ok rfl).2 ⟨fit.places, rfl⟩
  obtain ⟨-, rfl⟩ := (Header.encode_eq_ok rfl).1 header
  rw [List.append_assoc, List.append_assoc] at holds₅
  refine absurd stop (holds₅.not_stops_front inside ?_)
  rw [length_room]
  exact parts.length_front

/-- **Saving succeeds** if every number fits and the stream has room. -/
theorem save_of_fit (fit : parts.Fit) (inside : s.position ≤ s.content.size)
    (room : s.Takes parts.bytes.length) : ∃ s', Returns parts.save s parts.summary s' := by
  obtain ⟨summary, s', run⟩ | ⟨e, s', run⟩ := returns_or_stops parts.save s
  · obtain ⟨-, rfl, -⟩ := save_returns inside run
    exact ⟨s', run⟩
  · exact absurd ⟨fit, room⟩ (save_stops inside run).cause

end Parts

namespace Forest

variable {forest : Forest} {widths : Widths} {parts : Parts} {log : Log} {s s' : Stream}

theorem save_of_error {e : Error} (build : forest.build widths = (.error e, log)) :
    forest.save widths s = ⟨.error e, s, log⟩ := by
  unfold save
  rw [build]

theorem save_of_returns {summary : Summary} (build : forest.build widths = (.ok parts, log))
    (run : Returns parts.save s summary s') :
    forest.save widths s = ⟨.ok summary, s', log.push summary.event⟩ := by
  unfold save
  rw [build]
  dsimp only
  rw [run]

theorem save_of_stops {e : Error} (build : forest.build widths = (.ok parts, log))
    (run : Stops parts.save s e s') : forest.save widths s = ⟨.error e, s', log⟩ := by
  unfold save
  rw [build]
  dsimp only
  rw [run]

/-- **A container that is built** is laid out as its parts say, and every number fits. -/
theorem toBytes_eq_ok {b : Array UInt8} :
    forest.toBytes widths = .ok b ↔
      ∃ parts log, forest.build widths = (.ok parts, log) ∧ parts.Fit ∧ b.toList = parts.bytes := by
  have inside : Stream.empty.position ≤ Stream.empty.content.size := Nat.le_refl _
  have content {parts : Parts} {s : Stream} {position : Nat}
      (holds : s.Holds Stream.empty parts.bytes position) : s.content.toList = parts.bytes := by
    rw [holds.content]
    show [] ++ parts.bytes ++ List.drop _ [] = _
    rw [List.nil_append, List.drop_nil, List.append_nil]
  unfold toBytes
  rcases build : forest.build widths with ⟨e | parts, log⟩
  · rw [save_of_error build]
    exact ⟨fun h => (nomatch h), fun ⟨_, _, same, _⟩ => (nomatch congrArg Prod.fst same)⟩
  constructor
  · intro h
    obtain ⟨summary, s, run⟩ | ⟨e, s, run⟩ := returns_or_stops parts.save Stream.empty
    · rw [save_of_returns build run] at h
      cases h
      obtain ⟨fit, -, holds⟩ := Parts.save_returns inside run
      exact ⟨parts, log, rfl, fit, content holds⟩
    · rw [save_of_stops build run] at h
      cases h
  · rintro ⟨_, _, same, fit, bytes⟩
    cases same
    obtain ⟨s, run⟩ := Parts.save_of_fit fit inside (.inl rfl)
    obtain ⟨-, -, holds⟩ := Parts.save_returns inside run
    rw [save_of_returns build run]
    exact congrArg Except.ok (Array.toList_inj.1 ((content holds).trans bytes.symm))

/-- What fits its fields is saved to a stream that grows, and reported. -/
theorem save_empty (build : forest.build widths = (.ok parts, log)) (fit : parts.Fit) :
    (forest.save widths .empty).result = .ok parts.summary := by
  have inside : Stream.empty.position ≤ Stream.empty.content.size := Nat.le_refl _
  obtain ⟨s, run⟩ := Parts.save_of_fit fit inside (.inl rfl)
  rw [save_of_returns build run]

/-- The save succeeded, and the container was written where the stream was. -/
structure Saves (forest : Forest) (widths : Widths) (s : Stream) (b : Array UInt8) : Prop where
  bytes : forest.toBytes widths = .ok b
  result : ∃ summary, (forest.save widths s).result = .ok summary
  stream : (forest.save widths s).stream.Holds s b.toList (s.position + b.toList.length)

/-- The save failed, as no container has room; the stream is as it was, or begins with a zero if it
was at its front. -/
structure Fails (forest : Forest) (widths : Widths) (s : Stream) : Prop where
  result : ∃ e, (forest.save widths s).result = .error e
  full : ∀ b, forest.toBytes widths = .ok b → ¬ s.Takes b.size
  stream : (forest.save widths s).stream = s ∨
    (s.position = 0 → ∀ b, (forest.save widths s).stream.content[0]? = some b → b = 0)

theorem saves_or_fails (forest : Forest) (widths : Widths) (inside : s.position ≤ s.content.size) :
    (∃ b, forest.Saves widths s b) ∨ forest.Fails widths s := by
  rcases build : forest.build widths with ⟨e | parts, log⟩
  · have save := save_of_error (s := s) build
    refine .inr ⟨⟨e, by rw [save]⟩, fun b saved => ?_, .inl (by rw [save])⟩
    obtain ⟨_, _, same, _⟩ := toBytes_eq_ok.1 saved
    rw [build] at same
    cases same
  obtain ⟨summary, s', run⟩ | ⟨e, s', run⟩ := returns_or_stops parts.save s
  · have save := save_of_returns build run
    obtain ⟨fit, -, holds⟩ := Parts.save_returns inside run
    refine .inl ⟨parts.bytes.toArray, ?_, ⟨summary, by rw [save]⟩, by rwa [save]⟩
    exact toBytes_eq_ok.2 ⟨parts, log, build, fit, rfl⟩
  · have save := save_of_stops build run
    have stopped := Parts.save_stops inside run
    refine .inr ⟨⟨e, by rw [save]⟩, fun b saved room => ?_, .inr (by rw [save]; exact stopped.front)⟩
    obtain ⟨_, _, same, fit, bytes⟩ := toBytes_eq_ok.1 saved
    rw [build] at same
    cases same
    rw [← Array.length_toList, bytes] at room
    exact stopped.cause ⟨fit, room⟩

end Forest

end DeclArchive
