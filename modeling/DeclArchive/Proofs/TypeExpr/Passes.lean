import DeclArchive.Proofs.TypeExpr

/-!
# The two passes over a type

The first pass lists where the parts of a type are, the second one takes the offsets from the front of that
list. Both go through the type in one order, so there is an offset for every pointer and none is left over:
`TypeExpr.appends_writeNode`. What the second pass appends is a function of the type and the offsets
(`TypeExpr.runBytes`), and nothing else lands in it. Neither pass stops but at a number that is too large for
its field (`passes_in_step`).
-/

namespace DeclArchive

open Write

/-- A number is too large for its field. -/
def Error.IsOverflow : Error → Prop
  | .offsetOverflow _ _ | .countOverflow _ _ => True
  | _ => False

namespace Write

variable {α β : Type} {w : Writer}

/-! ## Operations that stop at large numbers only -/

/-- However it is run, the operation stops at nothing but a number that is too large for its field. -/
def Overflows (x : Write α) : Prop :=
  ∀ w, Ends (fun e _ => e.IsOverflow) (fun _ _ => True) x w

theorem overflows_pure (a : α) : Overflows (pure a : Write α) := fun _ => ends_pure trivial

theorem Overflows.bind {x : Write β} {f : β → Write α} (hx : Overflows x)
    (hf : ∀ b, Overflows (f b)) : Overflows (x >>= f) :=
  fun w => (hx w).bind fun b t _ => hf b t

theorem Overflows.mapM {f : α → Write β} (each : ∀ x, Overflows (f x)) (xs : List α) :
    Overflows (xs.mapM f) := by
  induction xs with
  | nil => exact overflows_pure []
  | cons x xs ih =>
    rw [List.mapM_cons]
    exact (each x).bind fun _ => ih.bind fun _ => overflows_pure _

theorem overflows_text (s : String) : Overflows (text s) := by
  intro w
  unfold Ends
  rw [text_run]
  cases w.interned[s]? <;> trivial

/-! ## Operations that append -/

/-- The operation returns `a` and appends `data`, or it stops at a number that is too large for its field. -/
def Appends (x : Write α) (w : Writer) (a : α) (data : List UInt8) : Prop :=
  Ends (fun e _ => e.IsOverflow) (fun b w' => b = a ∧ w' = w.append data) x w

theorem Appends.overflows {x : Write α} (h : ∀ w, ∃ a data, Appends x w a data) : Overflows x := by
  intro w
  obtain ⟨a, data, appends⟩ := h w
  exact appends.imp (fun _ _ large => large) fun _ _ _ => trivial

theorem appends_pure (a : α) : Appends (pure a) w a [] := ends_pure ⟨rfl, w.append_nil.symm⟩

theorem Appends.bind {x : Write β} {f : β → Write α} {b : β} {a : α} {data more : List UInt8}
    (first : Appends x w b data) (rest : Appends (f b) (w.append data) a more) :
    Appends (x >>= f) w a (data ++ more) := by
  refine Ends.bind first ?_
  rintro _ _ ⟨rfl, rfl⟩
  rw [← w.append_append]
  exact rest

/-- Returning something else appends nothing more. -/
theorem Appends.returning {x : Write β} {b : β} {data : List UInt8} (h : Appends x w b data) (a : α) :
    Appends (do let _ ← x; return a) w a data := by
  have run := Appends.bind (f := fun _ => pure a) h (appends_pure a)
  rwa [List.append_nil] at run

theorem appends_bytes (data : List UInt8) : Appends (bytes data) w w.heap.size data :=
  ends_of_returns (returns_bytes.2 ⟨rfl, rfl⟩) ⟨rfl, rfl⟩

theorem appends_pointer (target : Offset) :
    Appends (pointer target) w w.heap.size (LittleEndian.encode w.format.pointerWidth target) := by
  by_cases large : w.format.largestOffset < target
  · have run : Stops (pointer target) w (.offsetOverflow target w.format.pointer) w := by
      simp [pointer, large]
    exact ends_of_stops run trivial
  · exact ends_of_returns (returns_pointer.2 ⟨Nat.not_lt.1 large, rfl, rfl⟩) ⟨rfl, rfl⟩

theorem appends_count (n : Nat) :
    Appends (count n) w w.heap.size (LittleEndian.encode w.format.countWidth n) := by
  by_cases large : w.format.largestCount < n
  · have run : Stops (count n) w (.countOverflow n w.format.count) w := by simp [count, large]
    exact ends_of_stops run trivial
  · exact ends_of_returns (returns_count.2 ⟨Nat.not_lt.1 large, rfl, rfl⟩) ⟨rfl, rfl⟩

theorem appends_pointers (targets : List Offset) :
    Appends (pointers targets) w () (Image.pointerRun w.format targets) := by
  unfold pointers
  induction targets generalizing w with
  | nil => exact appends_pure ()
  | cons target rest ih => exact ((appends_pointer target).returning ()).bind ih

theorem overflows_array (targets : List Offset) : Overflows (array targets) :=
  Appends.overflows fun _ => ⟨_, _, (appends_count _).bind
    ((appends_pointers targets).bind (appends_pure _))⟩

theorem overflows_arrayOrNull (targets : List Offset) : Overflows (arrayOrNull targets) := by
  unfold arrayOrNull
  split_ifs
  · exact overflows_pure _
  · exact overflows_array targets

end Write

/-! ## The first pass -/

theorem Part.overflows_write (p : Part) : Overflows p.write := by
  cases p with
  | name s => exact overflows_text s
  | protocols ss => exact (Overflows.mapM overflows_text ss).bind overflows_arrayOrNull

/-- The first pass lists an offset for each part. -/
theorem ends_writeParts (parts : List Part) (w : Writer) :
    Ends (fun e _ => e.IsOverflow) (fun refs u => Returns (parts.mapM Part.write) w refs u ∧
      refs.length = parts.length) (parts.mapM Part.write) w :=
  (Overflows.mapM Part.overflows_write parts w).returns.imp (fun _ _ large => large)
    fun _ _ h => ⟨h.1, h.1.length_of_mapM⟩

/-! ## The second pass -/

/-- The bytes of a node whose own parts are at these offsets. -/
def TypeExpr.headBytes (f : Format) (t : TypeExpr) (own : List Offset) : List UInt8 :=
  t.tag.byte ::
    match t with
    | .scalar _ | .indirect _ _ => []
    | .named _ _ | .object _ _ => Image.pointerRun f own
    | .sized _ _ size => LittleEndian.encode 4 size.toNat
    | .callable _ signature => [UInt8.ofNat signature.length]
    | .anonymous _ fields => UInt8.ofNat fields.length :: Image.pointerRun f own

mutual

/-- The run of a type whose parts are at the first of these offsets: the node takes those of its own parts,
and each child, in order, those of the parts in it. -/
def TypeExpr.runBytes (f : Format) (t : TypeExpr) (refs : List Offset) : List UInt8 :=
  t.headBytes f (refs.take t.ownParts.length) ++
    let below := refs.drop t.ownParts.length
    match t with
    | .scalar _ | .object _ _ | .named _ _ => []
    | .indirect _ target => target.runBytes f below
    | .sized _ element _ => element.runBytes f below
    | .callable _ signature => runBytesOfTypes f signature below
    | .anonymous _ fields => runBytesOfFields f fields below

/-- The runs of these types one after another. -/
def runBytesOfTypes (f : Format) : List TypeExpr → List Offset → List UInt8
  | [], _ => []
  | t :: ts, refs => t.runBytes f refs ++ runBytesOfTypes f ts (refs.drop t.parts.length)

/-- The runs of the types of these fields one after another. -/
def runBytesOfFields (f : Format) : List Field → List Offset → List UInt8
  | [], _ => []
  | ⟨_, t⟩ :: fs, refs => t.runBytes f refs ++ runBytesOfFields f fs (refs.drop t.parts.length)

end

theorem runBytesOfFields_eq (f : Format) (fs : List Field) (refs : List Offset) :
    runBytesOfFields f fs refs = runBytesOfTypes f (fs.map Field.type) refs := by
  induction fs generalizing refs with
  | nil => rfl
  | cons field fs ih => cases field; simp [runBytesOfFields, runBytesOfTypes, ih]

theorem TypeExpr.runBytes_eq (f : Format) (t : TypeExpr) (refs : List Offset) :
    t.runBytes f refs = t.headBytes f (refs.take t.ownParts.length) ++
      runBytesOfTypes f t.children (refs.drop t.ownParts.length) := by
  cases t <;> rw [runBytes] <;> simp [children, runBytesOfTypes, runBytesOfFields_eq]

section

variable {w : Writer} {refs : List Offset}

theorem appends_writeSmallCount (n : Nat) :
    Appends (writeSmallCount n) w () [UInt8.ofNat n] := by
  unfold writeSmallCount
  dsimp only
  split_ifs with large
  · exact Ends.bind (ends_throw (Q := fun _ _ => False) trivial) nofun
  · exact (appends_bytes [UInt8.ofNat n]).returning ()

theorem appends_writeReferences {n : Nat} (enough : n ≤ refs.length) :
    Appends (writeReferences n refs) w (refs.drop n) (Image.pointerRun w.format (refs.take n)) := by
  induction n generalizing w refs with
  | zero => exact appends_pure refs
  | succ n ih =>
    cases refs with
    | nil => cases enough
    | cons o rest =>
      exact ((appends_pointer o).returning rest).bind (ih (Nat.le_of_succ_le_succ enough))

theorem TypeExpr.appends_writePayload (t : TypeExpr) (enough : t.ownParts.length ≤ refs.length) :
    Appends (t.writePayload refs) w (refs.drop t.ownParts.length)
      (t.headBytes w.format (refs.take t.ownParts.length)).tail := by
  cases t with
  | scalar | indirect => exact appends_pure refs
  | named | object =>
    cases refs with
    | nil => cases enough
    | cons o rest =>
      rw [writePayload, headBytes, List.tail_cons, Image.pointerRun]
      exact (appends_pointer o).bind (appends_pure rest)
  | sized _ _ size => exact (appends_bytes _).returning refs
  | callable => exact (appends_writeSmallCount _).returning refs
  | anonymous _ fields =>
    rw [ownParts, List.length_map] at enough ⊢
    exact (appends_writeSmallCount _).bind (appends_writeReferences enough)

/-- A node takes the offsets of its own parts. -/
theorem TypeExpr.appends_writeHead (t : TypeExpr) (enough : t.ownParts.length ≤ refs.length) :
    Appends (t.writeHead refs) w (refs.drop t.ownParts.length)
      (t.headBytes w.format (refs.take t.ownParts.length)) :=
  (appends_bytes [t.tag.byte]).bind (t.appends_writePayload enough)

theorem appends_writeNodes {ts : List TypeExpr}
    (each : ∀ t ∈ ts, ∀ {w : Writer} {refs : List Offset}, t.parts.length ≤ refs.length →
      Appends (t.writeNode refs) w (refs.drop t.parts.length) (t.runBytes w.format refs))
    (enough : (partsOfTypes ts).length ≤ refs.length) :
    Appends (writeNodes ts refs) w (refs.drop (partsOfTypes ts).length)
      (runBytesOfTypes w.format ts refs) := by
  induction ts generalizing w refs with
  | nil => exact appends_pure refs
  | cons t ts ih =>
    obtain ⟨first, others⟩ := List.forall_mem_cons.1 each
    rw [partsOfTypes, List.length_append] at enough ⊢
    rw [← List.drop_drop]
    refine (first (by omega)).bind (ih others ?_)
    rw [List.length_drop]
    omega

/-- **The second pass takes the offsets of the parts**, as many as there are, and appends the run. -/
theorem TypeExpr.appends_writeNode (t : TypeExpr) (enough : t.parts.length ≤ refs.length) :
    Appends (t.writeNode refs) w (refs.drop t.parts.length) (t.runBytes w.format refs) := by
  induction t using TypeExpr.induction generalizing w refs with
  | node t ih =>
    rw [parts_eq, List.length_append] at enough ⊢
    rw [writeNode_eq, runBytes_eq, ← List.drop_drop]
    refine (t.appends_writeHead (by omega)).bind (appends_writeNodes ih ?_)
    rw [List.length_drop]
    omega

end

/-! ### Lengths -/

section

variable {f : Format} {refs : List Offset}

theorem TypeExpr.length_headBytes (t : TypeExpr) (length : refs.length = t.ownParts.length) :
    (t.headBytes f refs).length = t.headSize f := by
  cases t with
  | scalar | indirect | callable => rfl
  | sized => rw [headBytes, List.length_cons, LittleEndian.length_encode, headSize]
  | named | object =>
    rw [headBytes, List.length_cons, Image.length_pointerRun, length, headSize, ownParts,
      List.length_singleton, Nat.one_mul, Nat.add_comm]
  | anonymous _ fields =>
    rw [headBytes, List.length_cons, List.length_cons, Image.length_pointerRun, length, headSize,
      ownParts, List.length_map, Nat.mul_comm]
    omega

theorem length_runBytesOfTypes {ts : List TypeExpr}
    (each : ∀ t ∈ ts, ∀ {refs : List Offset}, t.parts.length ≤ refs.length →
      (t.runBytes f refs).length = t.runSize f)
    (enough : (partsOfTypes ts).length ≤ refs.length) :
    (runBytesOfTypes f ts refs).length = runSizeOfTypes f ts := by
  induction ts generalizing refs with
  | nil => rfl
  | cons t ts ih =>
    obtain ⟨first, others⟩ := List.forall_mem_cons.1 each
    rw [partsOfTypes, List.length_append] at enough
    have rest : (partsOfTypes ts).length ≤ (refs.drop t.parts.length).length := by
      rw [List.length_drop]
      omega
    rw [runBytesOfTypes, List.length_append, first (by omega), ih others rest, runSizeOfTypes]

/-- The run of a type has the length that its shape and the widths give it, wherever its parts are. -/
theorem TypeExpr.length_runBytes (t : TypeExpr) (enough : t.parts.length ≤ refs.length) :
    (t.runBytes f refs).length = t.runSize f := by
  induction t using TypeExpr.induction generalizing refs with
  | node t ih =>
    rw [parts_eq, List.length_append] at enough
    have own : (refs.take t.ownParts.length).length = t.ownParts.length :=
      List.length_take_of_le (by omega)
    have rest : (partsOfTypes t.children).length ≤ (refs.drop t.ownParts.length).length := by
      rw [List.length_drop]
      omega
    rw [runBytes_eq, List.length_append, length_headBytes t own, length_runBytesOfTypes ih rest,
      runSize_eq]

end

/-! ## Both passes -/

/-- The first pass lists the parts, which are where the list says if the interned texts were. Given that
list, the second pass takes all of it and appends the run, or stops at a number that is too large. -/
structure InStep (w : Writer) (parts : List Part) (first : Write (List Offset))
    (second : List Offset → Write (List Offset)) (run : List Offset → List UInt8) : Prop where
  length {refs : List Offset} {u : Writer} : Returns first w refs u → refs.length = parts.length
  stored {refs : List Offset} {u : Writer} : Returns first w refs u → w.Sound →
    List.Forall₂ (Part.Stored u) parts refs
  taken {refs : List Offset} {u : Writer} : Returns first w refs u → Appends (second refs) u [] (run refs)

/-- From `w` to `w'` the first pass wrote something outside, and behind that there is, from `o` on, nothing
but the run over its list, which has this size. -/
def LeavesRun (first : Write (List Offset)) (run : List Offset → List UInt8) (size : Nat) (w : Writer)
    (o : Offset) (w' : Writer) : Prop :=
  ∃ refs u outside, Returns first w refs u ∧ o = u.heap.next ∧
    u.heap.bytes.toList = w.heap.bytes.toList ++ outside ∧
    w'.heap.bytes.toList = w.heap.bytes.toList ++ outside ++ run refs ∧ (run refs).length = size

theorem ends_leavesRun {parts : List Part} {second : List Offset → Write Offset}
    {run : List Offset → List UInt8} {size : Nat} {w : Writer}
    (appends : ∀ refs u, refs.length = parts.length → u.format = w.format →
      Appends (second refs) u u.heap.size (run refs))
    (length : ∀ refs, refs.length = parts.length → (run refs).length = size) :
    Ends (fun e _ => e.IsOverflow) (LeavesRun (parts.mapM Part.write) run size w)
      (parts.mapM Part.write >>= second) w := by
  refine (ends_writeParts parts w).bind fun refs u ⟨first, many⟩ => ?_
  have grew := (Keeps.mapM Part.grows_write parts).of_returns first
  obtain ⟨outside, heap⟩ := grew.heap
  refine (appends refs u many grew.format).imp (fun _ _ large => large) ?_
  rintro _ _ ⟨rfl, rfl⟩
  refine ⟨refs, u, outside, first, rfl, heap.symm, ?_, length refs many⟩
  rw [Writer.append_heap, Heap.toList_append, heap]

section

variable (w : Writer)

theorem appends_position : Appends position w w.heap.size [] :=
  ends_of_returns (returns_position.2 ⟨rfl, rfl⟩) ⟨rfl, w.append_nil.symm⟩

theorem TypeExpr.ends_write (t : TypeExpr) :
    Ends (fun e _ => e.IsOverflow)
      (LeavesRun t.writeParts (t.runBytes w.format) (t.runSize w.format) w) t.write w := by
  unfold TypeExpr.write
  rw [writeParts_eq]
  refine ends_leavesRun (fun refs u many format => ?_) fun refs many => t.length_runBytes many.ge
  rw [← format]
  exact (appends_position u).bind ((t.appends_writeNode many.ge).returning _)

theorem ends_writeSignature (ts : List TypeExpr) :
    Ends (fun e _ => e.IsOverflow) (LeavesRun (writePartsOfTypes ts)
      (fun refs => LittleEndian.encode w.format.countWidth ts.length ++ runBytesOfTypes w.format ts refs)
      (w.format.countWidth + runSizeOfTypes w.format ts) w) (writeSignature ts) w := by
  unfold writeSignature
  rw [writePartsOfTypes_eq fun t _ => t.writeParts_eq]
  refine ends_leavesRun (fun refs u many format => ?_) fun refs many => ?_
  · rw [← format]
    exact (appends_count ts.length).bind
      ((appends_writeNodes (fun t _ _ _ => t.appends_writeNode) many.ge).returning _)
  · rw [List.length_append, LittleEndian.length_encode,
      length_runBytesOfTypes (fun t _ _ => t.length_runBytes) many.ge]

theorem TypeExpr.inStep (t : TypeExpr) :
    InStep w t.parts t.writeParts t.writeNode (t.runBytes w.format) where
  length run := (t.writeParts_eq ▸ run).length_of_mapM
  stored run sound := t.writeParts_store sound run
  taken {refs u} run := by
    have many : refs.length = t.parts.length := (t.writeParts_eq ▸ run).length_of_mapM
    have all := t.appends_writeNode (w := u) many.ge
    rwa [← many, List.drop_length, (t.grows_writeParts.of_returns run).format] at all

theorem inStep_signature (ts : List TypeExpr) :
    InStep w (partsOfTypes ts) (writePartsOfTypes ts) (writeNodes ts) (runBytesOfTypes w.format ts) where
  length run := (writePartsOfTypes_eq (fun t _ => t.writeParts_eq) ▸ run).length_of_mapM
  stored run sound := writePartsOfTypes_store ts sound run
  taken {refs u} run := by
    have many : refs.length = (partsOfTypes ts).length :=
      (writePartsOfTypes_eq (fun t _ => t.writeParts_eq) ▸ run).length_of_mapM
    have all := appends_writeNodes (w := u) (fun t _ _ _ => t.appends_writeNode) many.ge
    rwa [← many, List.drop_length, ((grows_writePartsOfTypes ts).of_returns run).format] at all

/-- **The two passes stay in step**, whatever the writer is. The first one lists an offset for each part of a
type or signature, and the second one takes these offsets, all of them and in order. So writing stops at
nothing but a number that is too large for its field, and never for want of an offset. Where it succeeds, the
texts and arrays come first, and the run behind them is in one piece, as long as its nodes say. -/
theorem passes_in_step (w : Writer) :
    (∀ t : TypeExpr,
      InStep w t.parts t.writeParts t.writeNode (t.runBytes w.format) ∧
      (∀ e w', Stops t.write w e w' → e.IsOverflow) ∧
      ∀ o w', Returns t.write w o w' →
        LeavesRun t.writeParts (t.runBytes w.format) (t.runSize w.format) w o w') ∧
      ∀ ts : List TypeExpr,
        InStep w (partsOfTypes ts) (writePartsOfTypes ts) (writeNodes ts)
          (runBytesOfTypes w.format ts) ∧
        (∀ e w', Stops (writeSignature ts) w e w' → e.IsOverflow) ∧
        ∀ o w', Returns (writeSignature ts) w o w' →
          LeavesRun (writePartsOfTypes ts)
            (fun refs => LittleEndian.encode w.format.countWidth ts.length ++
              runBytesOfTypes w.format ts refs)
            (w.format.countWidth + runSizeOfTypes w.format ts) w o w' :=
  ⟨fun t => ⟨t.inStep w, fun _ _ => (t.ends_write w).of_stops, fun _ _ => (t.ends_write w).of_returns⟩,
    fun ts => ⟨inStep_signature w ts, fun _ _ => (ends_writeSignature w ts).of_stops,
      fun _ _ => (ends_writeSignature w ts).of_returns⟩⟩

end

namespace Sample

/-- A record of one field, whose type is a record that is named. -/
def tagged : TypeExpr := .anonymous .struct [⟨"a", .named .struct "A"⟩]

theorem valid_short : Widths.Valid ⟨1, 1⟩ := by decide

/-- A writer of one byte for every number. -/
def short : Writer := { format := ⟨⟨1, 1⟩, valid_short⟩ }

theorem returns_tagged : Returns tagged.write short 5
    (((short.intern "a").intern "A").append [30, 1, 1, 17, 3]) := by
  have new : (short.intern "a").interned["A"]? = none := by simp [Writer.intern, short]
  have first : Returns (text "a") short 1 (short.intern "a") :=
    returns_text_new Std.HashMap.getElem?_empty
  have second : Returns (text "A") (short.intern "a") 3 ((short.intern "a").intern "A") :=
    returns_text_new new
  have parts : Returns tagged.writeParts short [1, 3] ((short.intern "a").intern "A") := by
    rw [TypeExpr.writeParts_eq]
    exact returns_mapM_cons.2 ⟨1, _, first, [3],
      returns_mapM_cons.2 ⟨3, _, second, [], returns_mapM_nil.2 ⟨rfl, rfl⟩, rfl⟩, rfl⟩
  have node : Returns (tagged.writeNode [1, 3]) ((short.intern "a").intern "A") []
      (((short.intern "a").intern "A").append [30, 1, 1, 17, 3]) := rfl
  exact returns_bind.2 ⟨_, _, parts, returns_bind.2 ⟨_, _, returns_position.2 ⟨rfl, rfl⟩,
    returns_bind.2 ⟨_, _, node, returns_pure.2 ⟨rfl, rfl⟩⟩⟩⟩

end Sample

/-- The names come first and the run points at them, the name of the field before the name in its type. -/
theorem passes_in_step_tagged :
    LeavesRun Sample.tagged.writeParts (Sample.tagged.runBytes Sample.short.format) 5 Sample.short 5
        (((Sample.short.intern "a").intern "A").append [30, 1, 1, 17, 3]) ∧
      Sample.tagged.runBytes Sample.short.format [1, 3] = [30, 1, 1, 17, 3] :=
  ⟨((passes_in_step Sample.short).1 Sample.tagged).2.2 _ _ Sample.returns_tagged, by decide⟩

end DeclArchive
