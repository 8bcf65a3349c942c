import DeclArchive.Proofs.Declaration
import Mathlib.Tactic.Ring

/-!
# Wider pointers

Under wider pointers everything is written in the same order, and the pointers take more room. So each
position in the one heap has its counterpart in the other, which comes later, but in proportion to the
widths no later (`Stretch`). The largest offset grows by more than that, so what fits a pointer under
the one format fits one under the other (`Stretch.fits`).

`Write.Widens` says of two operations that the one succeeds over the wider heap where the other does
over the narrower one, and that what they return and leave are counterparts. All operations on a heap
keep to that, up to the writing of a declaration (`Declaration.widens_write`).
-/

namespace DeclArchive

/-! ## Proportions -/

theorem LittleEndian.span_le_span {p q : Nat} (h : p ≤ q) : span p ≤ span q :=
  Nat.pow_le_pow_right (by decide) h

/-- The numbers that wider fields hold grow faster than the fields. -/
theorem LittleEndian.span_ratio {p q : Nat} (pos : 0 < p) (h : p ≤ q) :
    (span p - 1) * q ≤ (span q - 1) * p := by
  induction q, h using Nat.le_induction with
  | base => exact Nat.le_refl _
  | succ q le ih =>
    have grows : span p - 1 ≤ (span q - 1) * p :=
      (Nat.sub_le_sub_right (span_le_span le) 1).trans (Nat.le_mul_of_pos_right _ pos)
    have double : 2 * (span q - 1) ≤ span (q + 1) - 1 := by
      rw [span_succ]
      omega
    calc (span p - 1) * (q + 1) = (span p - 1) * q + (span p - 1) := Nat.mul_succ _ _
      _ ≤ (span q - 1) * p + (span q - 1) * p := Nat.add_le_add ih grows
      _ = 2 * (span q - 1) * p := by ring
      _ ≤ (span (q + 1) - 1) * p := Nat.mul_le_mul_right p double

/-- The second format has the wider pointers and the same counts. -/
structure Format.Widens (f f' : Format) : Prop where
  pointer : f.pointerWidth ≤ f'.pointerWidth
  count : f'.count = f.count

/-- The second number is at least the first and, in proportion to the pointers, at most the first. -/
structure Stretch (f f' : Format) (n n' : Nat) : Prop where
  le : n ≤ n'
  ratio : n' * f.pointerWidth ≤ n * f'.pointerWidth

variable {f f' : Format}

theorem stretch_zero : Stretch f f' 0 0 :=
  ⟨Nat.le_refl 0, by rw [Nat.zero_mul, Nat.zero_mul]⟩

theorem Stretch.add {n n' m m' : Nat} (h : Stretch f f' n n') (k : Stretch f f' m m') :
    Stretch f f' (n + m) (n' + m') := by
  refine ⟨Nat.add_le_add h.le k.le, ?_⟩
  rw [Nat.add_mul, Nat.add_mul]
  exact Nat.add_le_add h.ratio k.ratio

theorem Format.largestOffset_eq (f : Format) :
    f.largestOffset = LittleEndian.span f.pointerWidth - 1 := by
  rw [Widths.largestOffset, Widths.largest]
  exact congrArg (fun n => LittleEndian.span n - 1) (Nat.min_eq_left f.pointerWidth_le)

section

variable (wide : f.Widens f')

include wide

theorem Format.Widens.stretch_self (n : Nat) : Stretch f f' n n :=
  ⟨Nat.le_refl n, Nat.mul_le_mul_left n wide.pointer⟩

theorem Format.Widens.stretch_pointers (n : Nat) :
    Stretch f f' (n * f.pointerWidth) (n * f'.pointerWidth) := by
  refine ⟨Nat.mul_le_mul_left n wide.pointer, Nat.le_of_eq ?_⟩
  rw [Nat.mul_assoc, Nat.mul_assoc, Nat.mul_comm f.pointerWidth]

theorem Format.Widens.stretch_pointer (o o' : Offset) :
    Stretch f f' (LittleEndian.encode f.pointerWidth o).length
      (LittleEndian.encode f'.pointerWidth o').length := by
  rw [LittleEndian.length_encode, LittleEndian.length_encode]
  have one := wide.stretch_pointers 1
  rwa [Nat.one_mul, Nat.one_mul] at one

/-- **What fits a pointer still fits** when positions and pointers grow. -/
theorem Stretch.fits {o o' : Offset} (h : Stretch f f' o o') (le : o ≤ f.largestOffset) :
    o' ≤ f'.largestOffset := by
  rw [Format.largestOffset_eq] at le ⊢
  refine Nat.le_of_mul_le_mul_right ?_ f.pointerWidth_pos
  calc o' * f.pointerWidth ≤ o * f'.pointerWidth := h.ratio
    _ ≤ (LittleEndian.span f.pointerWidth - 1) * f'.pointerWidth := Nat.mul_le_mul_right _ le
    _ ≤ (LittleEndian.span f'.pointerWidth - 1) * f.pointerWidth :=
      LittleEndian.span_ratio f.pointerWidth_pos wide.pointer

theorem fits_of_stretch {os os' : List Offset} (alike : List.Forall₂ (Stretch f f') os os')
    (fit : ∀ o ∈ os, o ≤ f.largestOffset) : ∀ o ∈ os', o ≤ f'.largestOffset := by
  intro o' mem
  obtain ⟨o, ho, stretch⟩ := exists_right_of_forall₂ alike.flip mem
  exact stretch.fits wide (fit o ho)

theorem Format.Widens.largestCount_eq : f'.largestCount = f.largestCount :=
  congrArg Widths.largest wide.count

theorem Format.Widens.countWidth_eq : f'.countWidth = f.countWidth :=
  congrArg UInt8.toNat wide.count

end

/-! ## Writers -/

/-- The writers have written the same, and every text is at counterparts. -/
structure Writer.Widens (f f' : Format) (w w' : Writer) : Prop where
  format : w.format = f
  format' : w'.format = f'
  size : Stretch f f' w.heap.size w'.heap.size
  interned : ∀ s : String, Option.Rel (Stretch f f') w.interned[s]? w'.interned[s]?

theorem Format.Widens.widens_start (wide : f.Widens f') :
    Writer.Widens f f' { format := f } { format := f' } where
  format := rfl
  format' := rfl
  size := wide.stretch_self _
  interned s := by
    rw [Std.HashMap.getElem?_empty]
    exact .none

/-- Where `x` succeeds over the narrower heap, `y` succeeds over the wider one, and both return and leave
counterparts. -/
abbrev Write.Widens (f f' : Format) {α β : Type} (S : α → β → Prop) (x : Write α) (y : Write β) :
    Prop := Follows (Writer.Widens f f') S x y

theorem Writer.Widens.append {w w' : Writer} (h : w.Widens f f' w') {data data' : List UInt8}
    (length : Stretch f f' data.length data'.length) :
    (w.append data).Widens f f' (w'.append data') := by
  refine ⟨h.format, h.format', ?_, h.interned⟩
  rw [append_heap, append_heap, Heap.size_append, Heap.size_append]
  exact h.size.add length

theorem Writer.Widens.intern (wide : f.Widens f') {w w' : Writer} (h : w.Widens f f' w')
    (s : String) : (w.intern s).Widens f f' (w'.intern s) where
  format := h.format
  format' := h.format'
  size := (h.append (wide.stretch_self _)).size
  interned t := by
    rw [Writer.intern, Writer.intern, Std.HashMap.getElem?_insert, Std.HashMap.getElem?_insert]
    split_ifs
    · exact .some h.size
    · exact h.interned t

namespace Write

/-! ## Bytes and numbers -/

theorem widens_bytes {data data' : List UInt8} (length : Stretch f f' data.length data'.length) :
    Widens f f' (Stretch f f') (bytes data) (bytes data') := by
  intro w w' o v h run
  obtain ⟨rfl, rfl⟩ := returns_bytes.1 run
  exact ⟨_, _, returns_bytes.2 ⟨rfl, rfl⟩, h.size, h.append length⟩

theorem widens_position : Widens f f' (Stretch f f') position position :=
  follows_get.bind fun _ _ h => follows_pure h.size

theorem widens_note (event event' : Event) :
    Widens f f' (fun _ _ => True) (note event) (note event') := by
  intro w w' u v h run
  cases run
  exact ⟨⟨⟩, _, rfl, trivial, h.format, h.format', h.size, h.interned⟩

section

variable (wide : f.Widens f')

include wide

theorem widens_number (width n : Nat) :
    Widens f f' (Stretch f f') (number width n) (number width n) :=
  widens_bytes (wide.stretch_self _)

theorem widens_byte (v : UInt8) : Widens f f' (Stretch f f') (byte v) (byte v) :=
  widens_bytes (wide.stretch_self _)

/-! ## Texts -/

theorem widens_text (s : String) : Widens f f' (Stretch f f') (text s) (text s) := by
  intro w w' o v h run
  unfold Returns at run
  rw [text_run] at run
  have known := h.interned s
  cases here : w.interned[s]? with
  | some start =>
    rw [here] at run known
    cases run
    cases there : w'.interned[s]? with
    | none =>
      rw [there] at known
      cases known
    | some start' =>
      rw [there] at known
      cases known with
      | some alike =>
        refine ⟨start', w', ?_, alike, h⟩
        unfold Returns
        rw [text_run, there]
  | none =>
    rw [here] at run known
    cases run
    cases there : w'.interned[s]? with
    | none =>
      refine ⟨w'.heap.next, w'.intern s, ?_, h.size, h.intern wide s⟩
      unfold Returns
      rw [text_run, there]
    | some start' =>
      rw [there] at known
      cases known

theorem widens_texts (ss : List String) :
    Widens f f' (List.Forall₂ (Stretch f f')) (texts ss) (texts ss) :=
  Follows.mapM_self (widens_text wide) ss

/-! ## Pointers and arrays -/

theorem widens_pointer {o o' : Offset} (alike : Stretch f f' o o') :
    Widens f f' (Stretch f f') (pointer o) (pointer o') := by
  intro w w' start v h run
  obtain ⟨le, rfl, rfl⟩ := returns_pointer.1 run
  have le' : o' ≤ w'.format.largestOffset := by
    rw [h.format] at le
    rw [h.format']
    exact alike.fits wide le
  refine ⟨_, _, returns_pointer.2 ⟨le', rfl, rfl⟩, h.size, h.append ?_⟩
  rw [h.format, h.format']
  exact wide.stretch_pointer o o'

theorem widens_count (n : Nat) : Widens f f' (Stretch f f') (count n) (count n) := by
  intro w w' start v h run
  obtain ⟨le, rfl, rfl⟩ := returns_count.1 run
  have le' : n ≤ w'.format.largestCount := by
    rwa [h.format', wide.largestCount_eq, ← h.format]
  refine ⟨_, _, returns_count.2 ⟨le', rfl, rfl⟩, h.size, h.append ?_⟩
  rw [LittleEndian.length_encode, LittleEndian.length_encode, h.format, h.format', wide.countWidth_eq]
  exact wide.stretch_self _

theorem widens_array {os os' : List Offset} (alike : List.Forall₂ (Stretch f f') os os') :
    Widens f f' (Stretch f f') (array os) (array os') := by
  unfold array
  rw [← alike.length_eq]
  refine (widens_count wide _).bind fun start start' h => ?_
  refine (Follows.forM (fun _ _ h => ?_) alike).bind fun _ _ _ => follows_pure h
  exact (widens_pointer wide h).bind fun _ _ _ => follows_pure trivial

theorem widens_arrayOrNull {os os' : List Offset} (alike : List.Forall₂ (Stretch f f') os os') :
    Widens f f' (Stretch f f') (arrayOrNull os) (arrayOrNull os') := by
  unfold arrayOrNull
  cases alike with
  | nil => exact follows_pure stretch_zero
  | cons first rest => exact widens_array wide (.cons first rest)

end

end Write

open Write

/-! ## Types -/

theorem widens_writeProtocolNames (wide : f.Widens f') (protocols : List String) :
    Write.Widens f f' (Stretch f f') (writeProtocolNames protocols) (writeProtocolNames protocols) :=
  (widens_texts wide protocols).bind fun _ _ names => widens_arrayOrNull wide names

theorem Part.widens_write (wide : f.Widens f') (p : Part) :
    Write.Widens f f' (Stretch f f') p.write p.write := by
  cases p with
  | name s => exact widens_text wide s
  | protocols ss => exact widens_writeProtocolNames wide ss

theorem TypeExpr.widens_writeParts (wide : f.Widens f') (t : TypeExpr) :
    Write.Widens f f' (List.Forall₂ (Stretch f f')) t.writeParts t.writeParts := by
  rw [writeParts_eq]
  exact Follows.mapM_self (Part.widens_write wide) _

theorem widens_writePartsOfTypes (wide : f.Widens f') (ts : List TypeExpr) :
    Write.Widens f f' (List.Forall₂ (Stretch f f')) (writePartsOfTypes ts) (writePartsOfTypes ts) := by
  rw [writePartsOfTypes_eq fun t _ => t.writeParts_eq]
  exact Follows.mapM_self (Part.widens_write wide) _

theorem widens_writeSmallCount (wide : f.Widens f') (n : Nat) :
    Write.Widens f f' (fun _ _ => True) (writeSmallCount n) (writeSmallCount n) := by
  unfold writeSmallCount
  dsimp only
  split_ifs
  · exact follows_throw.bind fun _ _ (_ : True) =>
      (widens_byte wide _).bind fun _ _ _ => follows_pure trivial
  · exact (widens_byte wide _).bind fun _ _ _ => follows_pure trivial

theorem widens_writeReference (wide : f.Widens f') {refs refs' : List Offset}
    (alike : List.Forall₂ (Stretch f f') refs refs') :
    Write.Widens f f' (List.Forall₂ (Stretch f f')) (writeReference refs) (writeReference refs') := by
  cases alike with
  | nil => exact follows_throw
  | cons first rest => exact (widens_pointer wide first).bind fun _ _ _ => follows_pure rest

theorem widens_writeReferences (wide : f.Widens f') (n : Nat) {refs refs' : List Offset}
    (alike : List.Forall₂ (Stretch f f') refs refs') :
    Write.Widens f f' (List.Forall₂ (Stretch f f')) (writeReferences n refs)
      (writeReferences n refs') := by
  induction n generalizing refs refs' with
  | zero => exact follows_pure alike
  | succ n ih => exact (widens_writeReference wide alike).bind fun _ _ rest => ih rest

theorem TypeExpr.widens_writeHead (wide : f.Widens f') (t : TypeExpr) {refs refs' : List Offset}
    (alike : List.Forall₂ (Stretch f f') refs refs') :
    Write.Widens f f' (List.Forall₂ (Stretch f f')) (t.writeHead refs) (t.writeHead refs') := by
  refine (widens_byte wide _).bind fun _ _ _ => ?_
  cases t with
  | scalar | indirect => exact follows_pure alike
  | named | object => exact widens_writeReference wide alike
  | sized => exact (widens_number wide _ _).bind fun _ _ _ => follows_pure alike
  | callable => exact (widens_writeSmallCount wide _).bind fun _ _ _ => follows_pure alike
  | anonymous =>
    exact (widens_writeSmallCount wide _).bind fun _ _ _ => widens_writeReferences wide _ alike

/-- However its offsets are stretched, the run of the type is. -/
def TypeExpr.WidensNode (f f' : Format) (t : TypeExpr) : Prop :=
  ∀ {refs refs' : List Offset}, List.Forall₂ (Stretch f f') refs refs' →
    Write.Widens f f' (List.Forall₂ (Stretch f f')) (t.writeNode refs) (t.writeNode refs')

theorem widens_writeNodes {ts : List TypeExpr} (each : ∀ t ∈ ts, t.WidensNode f f')
    {refs refs' : List Offset} (alike : List.Forall₂ (Stretch f f') refs refs') :
    Write.Widens f f' (List.Forall₂ (Stretch f f')) (writeNodes ts refs) (writeNodes ts refs') := by
  induction ts generalizing refs refs' with
  | nil => exact follows_pure alike
  | cons t ts ih =>
    obtain ⟨first, others⟩ := List.forall_mem_cons.1 each
    exact (first alike).bind fun _ _ rest => ih others rest

theorem TypeExpr.widens_writeNode (wide : f.Widens f') (t : TypeExpr) : t.WidensNode f f' := by
  induction t using TypeExpr.induction with
  | node t ih =>
    intro refs refs' alike
    rw [writeNode_eq, writeNode_eq]
    exact (t.widens_writeHead wide alike).bind fun _ _ rest => widens_writeNodes ih rest

section

variable (wide : f.Widens f')

include wide

theorem TypeExpr.widens_write (t : TypeExpr) :
    Write.Widens f f' (Stretch f f') t.write t.write :=
  (t.widens_writeParts wide).bind fun _ _ refs => widens_position.bind fun _ _ start =>
    (t.widens_writeNode wide refs).bind fun _ _ _ => follows_pure start

theorem widens_writeSignature (ts : List TypeExpr) :
    Write.Widens f f' (Stretch f f') (writeSignature ts) (writeSignature ts) :=
  (widens_writePartsOfTypes wide ts).bind fun _ _ refs => (widens_count wide _).bind fun _ _ start =>
    (widens_writeNodes (fun t _ => t.widens_writeNode wide) refs).bind fun _ _ _ => follows_pure start

/-! ## Records -/

theorem Info.widens_writeNames (i : Info) :
    Write.Widens f f' (Stretch f f') i.writeNames i.writeNames := by
  unfold Info.writeNames
  split_ifs
  · exact (widens_text wide _).bind fun _ _ shown => (widens_text wide _).bind fun _ _ name =>
      (widens_pointer wide shown).bind fun _ _ pair => (widens_pointer wide name).bind fun _ _ _ =>
        follows_pure pair
  · exact widens_text wide _

theorem Info.widens_writeBase (i : Info) {names names' : Offset} (alike : Stretch f f' names names')
    (flags : UInt8) (module : UInt16) :
    Write.Widens f f' (Stretch f f') (i.writeBase names flags module)
      (i.writeBase names' flags module) :=
  (widens_pointer wide alike).bind fun _ _ start => (widens_byte wide _).bind fun _ _ _ =>
    (widens_number wide _ _).bind fun _ _ _ => (widens_byte wide _).bind fun _ _ _ =>
      follows_pure start

theorem widens_writeTextOrNull (s : String) :
    Write.Widens f f' (Stretch f f') (writeTextOrNull s) (writeTextOrNull s) := by
  unfold writeTextOrNull
  split_ifs
  · exact follows_pure stretch_zero
  · exact widens_text wide s

theorem Method.widens_write (module : UInt16) (m : Method) :
    Write.Widens f f' (Stretch f f') (m.write module) (m.write module) := by
  unfold Method.write
  refine (m.info.widens_writeNames wide).bind ?_
  intro _ _ names
  refine (widens_writeSignature wide m.signature).bind ?_
  intro _ _ signature
  refine (widens_writeTextOrNull wide m.encoding).bind ?_
  intro _ _ encoding
  refine (m.info.widens_writeBase wide names _ module).bind ?_
  intro _ _ record
  refine (widens_pointer wide signature).bind ?_
  intro _ _ _
  refine (widens_pointer wide encoding).bind ?_
  intro _ _ _
  exact follows_pure record

theorem widens_writeAccessor (module : UInt16) (m? : Option Method) :
    Write.Widens f f' (Stretch f f') (writeAccessor module m?) (writeAccessor module m?) := by
  cases m? with
  | none => exact follows_pure stretch_zero
  | some m => exact m.widens_write wide module

theorem Property.widens_write (module : UInt16) (p : Property) :
    Write.Widens f f' (Stretch f f') (p.write module) (p.write module) := by
  unfold Property.write
  refine (p.info.widens_writeNames wide).bind ?_
  intro _ _ names
  refine (widens_writeAccessor wide module p.getter?).bind ?_
  intro _ _ getter
  refine (widens_writeAccessor wide module p.setter?).bind ?_
  intro _ _ setter
  refine (p.info.widens_writeBase wide names _ module).bind ?_
  intro _ _ record
  refine (widens_pointer wide getter).bind ?_
  intro _ _ _
  refine (widens_pointer wide setter).bind ?_
  intro _ _ _
  exact follows_pure record

/-! ## Members -/

/-- Where the members of a class are, in the one heap and in the other. -/
structure WrittenMembers.Widens (f f' : Format) (m m' : WrittenMembers) : Prop where
  instanceMethods : Stretch f f' m.instanceMethods m'.instanceMethods
  staticMethods : Stretch f f' m.staticMethods m'.staticMethods
  properties : Stretch f f' m.properties m'.properties
  protocols : Stretch f f' m.protocols m'.protocols
  firstInitializer : m.firstInitializer = m'.firstInitializer

omit wide in
theorem widens_noteInitializers (methods : List Method) :
    Write.Widens f f' Eq (noteInitializers methods) (noteInitializers methods) := by
  unfold noteInitializers
  cases initializerIndex methods with
  | ok _ =>
    cases initializerWarning? methods with
    | none => exact follows_pure rfl
    | some event => exact (widens_note event event).bind fun _ _ _ => follows_pure rfl
  | error _ =>
    cases initializerWarning? methods with
    | none => exact follows_throw
    | some event => exact (widens_note event event).bind fun _ _ _ => follows_throw

theorem Members.widens_write (module : UInt16) (m : Members) :
    Write.Widens f f' (WrittenMembers.Widens f f') (m.write module) (m.write module) := by
  unfold Members.write
  refine (widens_noteInitializers _).bind ?_
  intro _ _ index
  -- the members
  refine (Follows.mapM_self (Method.widens_write wide module) _).bind ?_
  intro _ _ instances
  refine (Follows.mapM_self (Method.widens_write wide module) _).bind ?_
  intro _ _ statics
  refine (Follows.mapM_self (Property.widens_write wide module) _).bind ?_
  intro _ _ properties
  refine (widens_texts wide _).bind ?_
  intro _ _ protocols
  -- the arrays that lead to them
  refine (widens_arrayOrNull wide instances).bind ?_
  intro _ _ instances
  refine (widens_arrayOrNull wide statics).bind ?_
  intro _ _ statics
  refine (widens_arrayOrNull wide properties).bind ?_
  intro _ _ properties
  refine (widens_arrayOrNull wide protocols).bind ?_
  intro _ _ protocols
  exact follows_pure ⟨instances, statics, properties, protocols, index⟩

theorem WrittenMembers.Widens.writePointers {m m' : WrittenMembers}
    (alike : WrittenMembers.Widens f f' m m') :
    Write.Widens f f' (fun _ _ => True) m.writePointers m'.writePointers := by
  unfold WrittenMembers.writePointers
  rw [alike.firstInitializer]
  exact (widens_pointer wide alike.instanceMethods).bind fun _ _ _ =>
    (widens_pointer wide alike.staticMethods).bind fun _ _ _ =>
    (widens_pointer wide alike.properties).bind fun _ _ _ =>
    (widens_pointer wide alike.protocols).bind fun _ _ _ =>
    (widens_number wide _ _).bind fun _ _ _ => follows_pure trivial

/-! ## Declarations -/

theorem widens_writeFields (fields : List Field) :
    Write.Widens f f' (fun o o' => Stretch f f' o.1 o'.1 ∧ Stretch f f' o.2 o'.2)
      (writeFields fields) (writeFields fields) := by
  unfold writeFields
  split_ifs
  · exact follows_pure ⟨stretch_zero, stretch_zero⟩
  · exact (widens_texts wide _).bind fun _ _ names => (widens_array wide names).bind
      fun _ _ names => (widens_writeSignature wide _).bind fun _ _ types => follows_pure ⟨names, types⟩

/-- **A declaration that is written** is written under wider pointers too, to the counterpart of its
place. -/
theorem Declaration.widens_write (module : UInt16) (d : Declaration) :
    Write.Widens f f' (Stretch f f') (d.write module) (d.write module) := by
  have names := d.info.widens_writeNames wide
  have base {names names' : Offset} (alike : Stretch f f' names names') (flags : UInt8) :=
    d.info.widens_writeBase wide alike flags module
  unfold Declaration.write
  cases d.body with
  | function =>
    exact names.bind fun _ _ names => (widens_writeSignature wide _).bind fun _ _ types =>
      (base names _).bind fun _ _ record => (widens_pointer wide types).bind fun _ _ _ =>
      follows_pure record
  | global type =>
    exact names.bind fun _ _ names => (type.widens_write wide).bind fun _ _ run =>
      (base names _).bind fun _ _ record => (widens_pointer wide run).bind fun _ _ _ =>
      follows_pure record
  | code =>
    exact names.bind fun _ _ names => (widens_text wide _).bind fun _ _ code =>
      (base names _).bind fun _ _ record => (widens_pointer wide code).bind fun _ _ _ =>
      follows_pure record
  | record =>
    exact names.bind fun _ _ names => (widens_writeFields wide _).bind fun _ _ lists =>
      (base names _).bind fun _ _ record => (widens_pointer wide lists.1).bind fun _ _ _ =>
      (widens_pointer wide lists.2).bind fun _ _ _ => follows_pure record
  | protocol members =>
    exact names.bind fun _ _ names => (members.widens_write wide _).bind fun _ _ offsets =>
      (base names _).bind fun _ _ record => (offsets.writePointers wide).bind fun _ _ _ =>
      follows_pure record
  | interface _ members =>
    exact names.bind fun _ _ names => (members.widens_write wide _).bind fun _ _ offsets =>
      (widens_writeTextOrNull wide _).bind fun _ _ baseName =>
      (base names _).bind fun _ _ record => (offsets.writePointers wide).bind fun _ _ _ =>
      (widens_pointer wide baseName).bind fun _ _ _ => follows_pure record
  | category => exact follows_throw

end

end DeclArchive
