import DeclArchive.Heap.Writer
import DeclArchive.Proofs.Image
import Mathlib.Data.List.Infix

/-!
# What writing leaves

The heap only grows, and every interned text is where the table says. `Writer.Grew` relates a writer
to every later one, also after a step that failed, and all operations keep it (`Write.Grows`). Those that
intern no text and log nothing do no more than append (`Write.OnlyAppends`).

`Writer.In w im` says that an image begins with the heap of `w`. What an operation wrote is found in
every such image, hence in the heap at the end of a run, whatever was written meanwhile. The lemmas
`returns_…` say for each operation when it succeeds, what it returns and which bytes it appends.
-/

namespace DeclArchive

/-! ## Records in a log -/

/-- The record that an event reports as complete. -/
def Event.record? : Event → Option Offset
  | .recordWritten _ _ record => some record
  | _ => none

/-- The records that a log reports, in the order in which they were completed. -/
def Log.records (log : Log) : List Offset := log.toList.filterMap Event.record?

theorem Log.records_push (log : Log) (event : Event) :
    Log.records (log.push event) = log.records ++ event.record?.toList := by
  unfold Log.records
  rw [Array.toList_push, List.filterMap_append]
  cases h : event.record? with
  | none => simp [h]
  | some record => simp [h]

/-! ## Heaps -/

theorem Heap.ext_toList {h k : Heap} (e : h.bytes.toList = k.bytes.toList) : h = k := by
  rcases h with ⟨bytes, _⟩
  rcases k with ⟨bytes', _⟩
  obtain rfl : bytes = bytes' := Array.toList_inj.1 e
  rfl

@[simp] theorem Heap.size_append (h : Heap) (data : List UInt8) :
    (h.append data).size = h.size + data.length := h.next_append data

/-- A heap can be asked to have room for as much as one block has, and is a new one then. -/
theorem Heap.reserve_eq_ok {capacity : Nat} {h : Heap} :
    Heap.reserve capacity = .ok h ↔ capacity ≤ Heap.largestBlock ∧ h = .empty := by
  unfold Heap.reserve
  split_ifs with large
  · exact ⟨nofun, fun ⟨le, _⟩ => absurd le (Nat.not_le.2 large)⟩
  · rw [Except.ok.injEq]
    exact ⟨fun h => ⟨Nat.not_lt.1 large, h.symm⟩, fun h => h.2.symm⟩

/-- The text is at `o`, with a zero byte after it. -/
def Heap.Stores (h : Heap) (o : Offset) (s : String) : Prop :=
  o ≠ 0 ∧ Utf8.encode s ++ [0] <+: h.bytes.toList.drop o

theorem Heap.Stores.mono {h k : Heap} {o : Offset} {s : String} (stores : h.Stores o s)
    (le : h.bytes.toList <+: k.bytes.toList) : k.Stores o s :=
  ⟨stores.1, stores.2.trans (le.drop o)⟩

/-- A text that is stored begins in the heap, for it has a zero byte at least. -/
theorem Heap.Stores.lt {h : Heap} {o : Offset} {s : String} (stores : h.Stores o s) : o < h.size := by
  have length : h.bytes.toList.length = h.size := Array.length_toList
  have le := stores.2.length_le
  rw [List.length_append, List.length_drop, length, List.length_singleton] at le
  have pos : 0 < h.size - o := (Nat.succ_pos _).trans_le le
  exact Nat.lt_of_sub_pos pos

/-! ## Writers that grow -/

namespace Writer

/-- Every interned text is where the table says. -/
def Sound (w : Writer) : Prop :=
  ∀ s o, w.interned[s]? = some o → w.heap.Stores o s

theorem empty_returns {widths : Widths} {w : Writer} (h : Writer.empty widths = .ok w) :
    w.format.toWidths = widths ∧ w.log.records = [] := by
  unfold Writer.empty at h
  obtain ⟨format, check, h⟩ := Except.bind_eq_ok.1 h
  cases h
  exact ⟨Widths.check_returns check, rfl⟩

theorem interned_empty {widths : Widths} {w : Writer} (h : Writer.empty widths = .ok w) (s : String) :
    w.interned[s]? = none := by
  unfold Writer.empty at h
  obtain ⟨format, -, h⟩ := Except.bind_eq_ok.1 h
  cases h
  exact Std.HashMap.getElem?_empty

theorem sound_empty {widths : Widths} {w : Writer} (h : Writer.empty widths = .ok w) : w.Sound := by
  intro s o known
  rw [interned_empty h] at known
  cases known

/-- The later writer has what the earlier one had, and reports no further record. -/
structure Grew (w w' : Writer) : Prop where
  format : w'.format = w.format
  heap : w.heap.bytes.toList <+: w'.heap.bytes.toList
  sound : w.Sound → w'.Sound
  records : w'.log.records = w.log.records

instance : IsPreorder Writer Grew where
  refl _ := ⟨rfl, List.prefix_rfl, id, rfl⟩
  trans _ _ _ h k := ⟨k.format.trans h.format, h.heap.trans k.heap, k.sound ∘ h.sound,
    k.records.trans h.records⟩

/-- The image begins with the heap of the writer, has its format and is in one block. -/
structure In (w : Writer) (im : Image) : Prop where
  format : im.format = w.format
  heap : w.heap.bytes.toList <+: im.bytes.toList
  fits : im.Fits

theorem Grew.within {w w' : Writer} {im : Image} (h : Grew w w') (inside : w'.In im) : w.In im :=
  ⟨inside.format.trans h.format, h.heap.trans inside.heap, inside.fits⟩

theorem Grew.size_le {w w' : Writer} (h : Grew w w') : w.heap.size ≤ w'.heap.size :=
  h.heap.length_le

/-- The writer with `data` at the end of its heap. -/
def append (w : Writer) (data : List UInt8) : Writer := { w with heap := w.heap.append data }

section

variable (w : Writer) (data : List UInt8)

@[simp] theorem append_heap : (w.append data).heap = w.heap.append data := rfl

@[simp] theorem append_append (more : List UInt8) :
    (w.append data).append more = w.append (data ++ more) := by
  have : (w.heap.append data).append more = w.heap.append (data ++ more) :=
    Heap.ext_toList (by simp)
  simp [append, this]

theorem grew_append : w.Grew (w.append data) where
  format := rfl
  heap := by simp
  sound h s o known := (h s o known).mono (by simp)
  records := rfl

@[simp] theorem append_nil : w.append [] = w := by
  have : w.heap.append [] = w.heap := Heap.ext_toList (by simp)
  simp [append, this]

end

/-- All that tells the later writer apart is what was appended. -/
def Appended (w w' : Writer) : Prop := ∃ data, w' = w.append data

instance : IsPreorder Writer Appended where
  refl w := ⟨[], w.append_nil.symm⟩
  trans := by
    rintro w _ _ ⟨data, rfl⟩ ⟨more, rfl⟩
    exact ⟨data ++ more, w.append_append data more⟩

/-- What was appended is in every image that begins with the heap. -/
theorem In.has {w : Writer} {data : List UInt8} {im : Image} (h : (w.append data).In im) :
    im.Has w.heap.size data := by
  have length : w.heap.bytes.toList.length = w.heap.size := Array.length_toList
  have begins := h.heap.drop w.heap.size
  rwa [append_heap, Heap.toList_append, List.drop_left' length] at begins

theorem In.size_le {w : Writer} {im : Image} (h : w.In im) : w.heap.size ≤ im.size :=
  h.heap.length_le

/-- The position past what was appended. -/
theorem In.positionAfter {w : Writer} {data : List UInt8} {im : Image} (h : (w.append data).In im)
    {n : Nat} (length : data.length = n) :
    positionAfter w.heap.size n = .ok (w.append data).heap.size := by
  have le := h.size_le
  rw [append_heap, Heap.size_append, length] at le ⊢
  exact Image.positionAfter_of_le h.fits le

theorem In.pointer_reads {w : Writer} {target : Offset} {im : Image}
    (h : (w.append (LittleEndian.encode w.format.pointerWidth target)).In im)
    (le : target ≤ w.format.largestOffset) :
    im.pointer w.heap.size = .ok target ∧ im.pastPointer w.heap.size =
      .ok (w.append (LittleEndian.encode w.format.pointerWidth target)).heap.size := by
  have format : im.format = w.format := h.format
  refine ⟨Image.pointer_of_has (format ▸ le) (format ▸ h.has), ?_⟩
  rw [Image.pastPointer, format]
  exact h.positionAfter (LittleEndian.length_encode ..)

theorem In.count_reads {w : Writer} {n : Nat} {im : Image}
    (h : (w.append (LittleEndian.encode w.format.countWidth n)).In im)
    (le : n ≤ w.format.largestCount) :
    im.count w.heap.size = .ok n ∧ DeclArchive.positionAfter w.heap.size im.format.countWidth =
      .ok (w.append (LittleEndian.encode w.format.countWidth n)).heap.size := by
  have format : im.format = w.format := h.format
  refine ⟨Image.count_of_has (format ▸ le) (format ▸ h.has), ?_⟩
  rw [format]
  exact h.positionAfter (LittleEndian.length_encode ..)

/-- The writer after a text was appended and interned. -/
def intern (w : Writer) (s : String) : Writer :=
  { w with
    heap := w.heap.append (Utf8.encode s ++ [0])
    interned := w.interned.insert s w.heap.next }

/-- The writer with this heap, in which these texts are interned. -/
def knowing (format : Format) (heap : Heap) (texts : List (String × Offset)) (log : Log) : Writer :=
  { format, heap, log, interned := texts.foldr (fun t table => table.insert t.1 t.2) {} }

theorem interned_knowing {f : Format} {h : Heap} {texts : List (String × Offset)} {log : Log}
    (s : String) : (knowing f h texts log).interned[s]? = texts.lookup s := by
  unfold knowing
  induction texts with
  | nil => exact Std.HashMap.getElem?_empty
  | cons t texts ih =>
    dsimp only at ih ⊢
    rw [List.foldr_cons, Std.HashMap.getElem?_insert, List.lookup_cons, ih]
    by_cases same : s = t.1
    · rw [same, beq_self_eq_true, if_pos rfl]
    · rw [beq_false_of_ne same, beq_false_of_ne (Ne.symm same), if_neg Bool.false_ne_true]

theorem stores_append (h : Heap) (s : String) :
    (h.append (Utf8.encode s ++ [0])).Stores h.next s := by
  refine ⟨h.size_pos.ne', ?_⟩
  rw [Heap.toList_append]
  exact (List.drop_left' (Array.length_toList ..)).symm ▸ List.prefix_rfl

theorem grew_intern (w : Writer) (s : String) : w.Grew (w.intern s) where
  format := rfl
  heap := by simp [intern]
  sound h t o known := by
    rw [intern, Std.HashMap.getElem?_insert] at known
    split_ifs at known with e
    · obtain rfl : s = t := by simpa using e
      obtain rfl := Option.some.inj known
      exact stores_append w.heap s
    · exact (h t o known).mono (by simp [intern])
  records := rfl

end Writer

/-! ## Bytes and numbers -/

namespace Write

variable {w w' : Writer} {o : Offset} {α : Type}

/-- Whether it succeeds or stops, the operation leaves a writer that grew. -/
abbrev Grows (x : Write α) : Prop := Keeps Writer.Grew x

/-- Whether it succeeds or stops, the operation has done nothing but append. -/
abbrev OnlyAppends (x : Write α) : Prop := Keeps Writer.Appended x

theorem OnlyAppends.grows {x : Write α} (h : OnlyAppends x) : Grows x := by
  intro w
  obtain ⟨data, appended⟩ := h w
  rw [appended]
  exact w.grew_append data

@[simp] theorem returns_bytes {data : List UInt8} :
    Returns (bytes data) w o w' ↔ w.heap.size = o ∧ w.append data = w' := by
  unfold Returns
  exact ⟨fun h => by cases h; exact ⟨rfl, rfl⟩, fun ⟨h, h'⟩ => by rw [← h, ← h']; rfl⟩

theorem onlyAppends_bytes (data : List UInt8) : OnlyAppends (bytes data) := fun _ => ⟨data, rfl⟩

theorem grows_bytes (data : List UInt8) : Grows (bytes data) := (onlyAppends_bytes data).grows

/-- Bytes are found where they were written, which is never the null offset. -/
theorem bytes_placed {data : List UInt8} (run : Returns (bytes data) w o w') :
    o ≠ 0 ∧ ∀ {im : Image}, w'.In im → im.Has o data := by
  obtain ⟨rfl, rfl⟩ := returns_bytes.1 run
  exact ⟨w.heap.size_pos.ne', fun inside => inside.has⟩

@[simp] theorem returns_number {width n : Nat} :
    Returns (number width n) w o w' ↔
      w.heap.size = o ∧ w.append (LittleEndian.encode width n) = w' := returns_bytes

theorem onlyAppends_number (width n : Nat) : OnlyAppends (number width n) := onlyAppends_bytes _

@[simp] theorem returns_byte {v : UInt8} :
    Returns (byte v) w o w' ↔ w.heap.size = o ∧ w.append [v] = w' := returns_bytes

@[simp] theorem returns_uint16 {v : UInt16} :
    Returns (uint16 v) w o w' ↔
      w.heap.size = o ∧ w.append (LittleEndian.encode 2 v.toNat) = w' := returns_bytes

@[simp] theorem returns_int16 {v : Int16} :
    Returns (int16 v) w o w' ↔
      w.heap.size = o ∧ w.append (LittleEndian.encode 2 v.toUInt16.toNat) = w' := returns_bytes

@[simp] theorem returns_uint32 {v : UInt32} :
    Returns (uint32 v) w o w' ↔
      w.heap.size = o ∧ w.append (LittleEndian.encode 4 v.toNat) = w' := returns_bytes

@[simp] theorem returns_uint64 {v : UInt64} :
    Returns (uint64 v) w o w' ↔
      w.heap.size = o ∧ w.append (LittleEndian.encode 8 v.toNat) = w' := returns_bytes

@[simp] theorem returns_position :
    Returns position w o w' ↔ w.heap.size = o ∧ w = w' := by
  unfold position
  simp only [returns_bind, returns_get, returns_pure]
  constructor
  · rintro ⟨_, _, ⟨rfl, rfl⟩, h⟩
    exact h
  · exact fun h => ⟨w, w, ⟨rfl, rfl⟩, h⟩

theorem onlyAppends_position : OnlyAppends position := keeps_get.bind fun _ => keeps_pure _

theorem grows_position : Grows position := onlyAppends_position.grows

theorem grows_note {event : Event} (h : event.record? = none) : Grows (note event) := by
  intro w
  refine ⟨rfl, List.prefix_rfl, id, ?_⟩
  show Log.records (w.log.push event) = _
  rw [Log.records_push, h, Option.toList_none, List.append_nil]

/-! ## Texts -/

@[simp] theorem returns_freshText {s : String} :
    Returns (freshText s) w o w' ↔
      w.heap.size = o ∧ w.append (Utf8.encode s ++ [0]) = w' := returns_bytes

theorem freshText_stores {s : String} (run : Returns (freshText s) w o w') : w'.heap.Stores o s := by
  obtain ⟨rfl, rfl⟩ := returns_freshText.1 run
  exact Writer.stores_append w.heap s

theorem text_run (s : String) (w : Writer) :
    (text s).run.run w =
      match w.interned[s]? with
      | some o => (.ok o, w)
      | none => (.ok w.heap.next, w.intern s) := by
  show (match w.interned[s]? with
    | some o => (pure o : Write Offset)
    | none => do
      let start ← freshText s
      remember s start
      return start).run.run w = _
  cases w.interned[s]? <;> rfl

theorem returns_text_new {s : String} (new : w.interned[s]? = none) :
    Returns (text s) w w.heap.size (w.intern s) := by
  unfold Returns
  rw [text_run, new]
  rfl

section

variable {f : Format} {h : Heap} {known : List (String × Offset)} {log : Log} {s : String}

theorem returns_text_known (here : known.lookup s = some o) :
    Returns (text s) (.knowing f h known log) o (.knowing f h known log) := by
  unfold Returns
  rw [text_run, Writer.interned_knowing, here]

theorem returns_text_unknown (new : known.lookup s = none) :
    Returns (text s) (.knowing f h known log) h.size
      (.knowing f (h.append (Utf8.encode s ++ [0])) ((s, h.size) :: known) log) :=
  returns_text_new ((Writer.interned_knowing s).trans new)

end

theorem grows_text (s : String) : Grows (text s) := by
  intro w
  rw [text_run]
  split
  · exact refl_of Writer.Grew w
  · exact w.grew_intern s

theorem text_stores {s : String} (sound : w.Sound) (run : Returns (text s) w o w') :
    w'.heap.Stores o s := by
  unfold Returns at run
  rw [text_run] at run
  split at run
  · next known =>
    cases run
    exact sound s o known
  · cases run
    exact Writer.stores_append w.heap s

theorem grows_texts (ss : List String) : Grows (texts ss) := Keeps.mapM grows_text ss

theorem texts_store {ss : List String} {os : List Offset} (sound : w.Sound)
    (run : Returns (texts ss) w os w') : List.Forall₂ (fun s o => w'.heap.Stores o s) ss os :=
  Returns.forall₂_of_mapM grows_text (fun grew => grew.sound) (fun grew h => h.mono grew.heap)
    (fun _ _ => text_stores) sound run

/-! ## Pointers and arrays -/

@[simp] theorem returns_pointer {target : Offset} :
    Returns (pointer target) w o w' ↔
      target ≤ w.format.largestOffset ∧ w.heap.size = o ∧
        w.append (LittleEndian.encode w.format.pointerWidth target) = w' := by
  unfold pointer
  simp only [returns_bind, returns_get]
  constructor
  · rintro ⟨_, _, ⟨rfl, rfl⟩, run⟩
    split_ifs at run with large
    · simp at run
    · exact ⟨Nat.not_lt.1 large, returns_number.1 run⟩
  · rintro ⟨le, run⟩
    refine ⟨w, w, ⟨rfl, rfl⟩, ?_⟩
    rw [if_neg (Nat.not_lt.2 le)]
    exact returns_number.2 run

theorem onlyAppends_pointer (target : Offset) : OnlyAppends (pointer target) := by
  refine keeps_get.bind fun w => ?_
  dsimp only
  split_ifs
  · exact (keeps_throw _).bind fun _ => onlyAppends_number _ _
  · exact onlyAppends_number _ _

theorem grows_pointer (target : Offset) : Grows (pointer target) :=
  (onlyAppends_pointer target).grows

@[simp] theorem returns_count {n : Nat} :
    Returns (count n) w o w' ↔
      n ≤ w.format.largestCount ∧ w.heap.size = o ∧
        w.append (LittleEndian.encode w.format.countWidth n) = w' := by
  unfold count
  simp only [returns_bind, returns_get]
  constructor
  · rintro ⟨_, _, ⟨rfl, rfl⟩, run⟩
    split_ifs at run with large
    · simp at run
    · exact ⟨Nat.not_lt.1 large, returns_number.1 run⟩
  · rintro ⟨le, run⟩
    refine ⟨w, w, ⟨rfl, rfl⟩, ?_⟩
    rw [if_neg (Nat.not_lt.2 le)]
    exact returns_number.2 run

theorem onlyAppends_count (n : Nat) : OnlyAppends (count n) := by
  refine keeps_get.bind fun w => ?_
  dsimp only
  split_ifs
  · exact (keeps_throw _).bind fun _ => onlyAppends_number _ _
  · exact onlyAppends_number _ _

theorem grows_count (n : Nat) : Grows (count n) := (onlyAppends_count n).grows

theorem onlyAppends_pointers (targets : List Offset) : OnlyAppends (pointers targets) :=
  Keeps.forM (fun target => (onlyAppends_pointer target).bind fun _ => keeps_pure _) targets

theorem returns_pointers {targets : List Offset} {u : Unit} :
    Returns (pointers targets) w u w' ↔
      (∀ target ∈ targets, target ≤ w.format.largestOffset) ∧
        w.append (Image.pointerRun w.format targets) = w' := by
  unfold pointers
  induction targets generalizing w with
  | nil => simp [Image.pointerRun]
  | cons target rest ih =>
    simp only [returns_forM_cons, returns_bind, returns_pointer, returns_pure, ih]
    constructor
    · rintro ⟨_, _, ⟨_, _, ⟨le, _, rfl⟩, _, rfl⟩, others, rfl⟩
      exact ⟨List.forall_mem_cons.2 ⟨le, others⟩, (w.append_append _ _).symm⟩
    · rintro ⟨le, rfl⟩
      obtain ⟨le, others⟩ := List.forall_mem_cons.1 le
      exact ⟨⟨⟩, _, ⟨_, _, ⟨le, rfl, rfl⟩, trivial, rfl⟩, others, w.append_append _ _⟩

theorem onlyAppends_array (targets : List Offset) : OnlyAppends (array targets) :=
  (onlyAppends_count _).bind fun _ => (onlyAppends_pointers targets).bind fun _ => keeps_pure _

theorem grows_array (targets : List Offset) : Grows (array targets) :=
  (onlyAppends_array targets).grows

theorem returns_array {targets : List Offset} :
    Returns (array targets) w o w' ↔
      targets.length ≤ w.format.largestCount ∧
        (∀ target ∈ targets, target ≤ w.format.largestOffset) ∧ w.heap.size = o ∧
          w.append (LittleEndian.encode w.format.countWidth targets.length ++
            Image.pointerRun w.format targets) = w' := by
  unfold array
  simp only [returns_bind, returns_count, returns_pointers, returns_pure]
  constructor
  · rintro ⟨_, _, ⟨few, rfl, rfl⟩, _, _, ⟨le, rfl⟩, rfl, rfl⟩
    exact ⟨few, le, rfl, (w.append_append _ _).symm⟩
  · rintro ⟨few, le, rfl, rfl⟩
    exact ⟨_, _, ⟨few, rfl, rfl⟩, ⟨⟩, _, ⟨le, rfl⟩, rfl, w.append_append _ _⟩

theorem array_reads {targets : List Offset} {im : Image} (run : Returns (array targets) w o w')
    (inside : w'.In im) : im.array o = .ok targets := by
  obtain ⟨few, le, rfl, rfl⟩ := returns_array.1 run
  have format : im.format = w.format := inside.format
  have has := inside.has
  rw [← format] at few le has
  exact Image.array_of_has inside.fits few le has

theorem onlyAppends_arrayOrNull (targets : List Offset) : OnlyAppends (arrayOrNull targets) := by
  unfold arrayOrNull
  split_ifs
  · exact keeps_pure _
  · exact onlyAppends_array targets

theorem grows_arrayOrNull (targets : List Offset) : Grows (arrayOrNull targets) :=
  (onlyAppends_arrayOrNull targets).grows

theorem arrayOrNull_reads {targets : List Offset} {im : Image}
    (run : Returns (arrayOrNull targets) w o w') (inside : w'.In im) :
    im.arrayOrEmpty o = .ok targets := by
  unfold arrayOrNull at run
  split_ifs at run with none
  · obtain ⟨rfl, rfl⟩ := returns_pure.1 run
    rw [List.isEmpty_iff.1 none]
    rfl
  · have notNull : o ≠ 0 := by
      obtain ⟨-, -, rfl, -⟩ := returns_array.1 run
      exact w.heap.size_pos.ne'
    rw [Image.arrayOrEmpty, Offset.present?, if_neg notNull]
    exact array_reads run inside

end Write

/-! ## Reading what is stored -/

namespace Writer.In

variable {w : Writer} {im : Image} (inside : w.In im)

include inside

theorem text_eq {s : String} {o : Offset} (stores : w.heap.Stores o s) :
    im.text o = .ok (Utf8.upToNul s) :=
  Image.text_of_has stores.1 (stores.2.trans (inside.heap.drop o))

theorem texts_eq {ss : List String} {os : List Offset}
    (stores : List.Forall₂ (fun s o => w.heap.Stores o s) ss os) :
    im.texts os = .ok (ss.map Utf8.upToNul) :=
  Except.mapM_eq_ok (List.forall₂_map_right_iff.2 (stores.flip.imp fun _ _ h => inside.text_eq h))

end Writer.In

end DeclArchive
