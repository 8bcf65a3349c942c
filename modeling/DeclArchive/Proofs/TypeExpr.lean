import DeclArchive.Proofs.TypeExpr.Node
import DeclArchive.TypeExpr.Decode

/-!
# Types survive writing

The first pass over a type leaves its parts at the offsets that it lists (`TypeExpr.writeParts_store`). The
second pass takes exactly these offsets from the front of its list and leaves a run of bytes. To read a
node of it is to read the children behind the node (`TypeExpr.readTypeWithin_node`), so all of it is read
as what a reader shows of the type (`TypeExpr.read_writeNode`): every text up to its first `U+0000`, and
nothing at all if the type is too high (`TypeExpr.shown?`). Together: `TypeExpr.write_shows`, and
`writeSignature_shows` for signatures.

A type of texts without that character, and low enough, is shown as it is (`TypeExpr.shown?_eq`), hence
read back (`TypeExpr.write_reads`, `writeSignature_reads`).
-/

namespace DeclArchive

open Write

/-! ## Parts -/

/-- The part is at `o` in the heap of the writer. -/
def Part.Stored (w : Writer) : Part → Offset → Prop
  | .name s, o => w.heap.Stores o s
  | .protocols ss, o => ∃ os, (∀ im, w.In im → im.arrayOrEmpty o = .ok os) ∧
      List.Forall₂ (fun s o => w.heap.Stores o s) ss os

/-- The part is read at `o`, each text up to its first `U+0000`. -/
def Part.Read (im : Image) : Part → Offset → Prop
  | .name s, o => im.text o = .ok (Utf8.upToNul s)
  | .protocols ss, o => ∃ os, im.arrayOrEmpty o = .ok os ∧ im.texts os = .ok (ss.map Utf8.upToNul)

theorem Part.Stored.mono {w w' : Writer} (grew : w.Grew w') {p : Part} {o : Offset}
    (h : p.Stored w o) : p.Stored w' o := by
  cases p with
  | name s => exact Heap.Stores.mono h grew.heap
  | protocols ss =>
    obtain ⟨os, array, stores⟩ := h
    exact ⟨os, fun im inside => array im (grew.within inside),
      stores.imp fun _ _ h => h.mono grew.heap⟩

theorem exists_append_of_forall₂ {α β : Type} {R : α → β → Prop} {xs xs' : List α} {ys : List β}
    (h : List.Forall₂ R (xs ++ xs') ys) :
    ∃ zs zs', zs ++ zs' = ys ∧ List.Forall₂ R xs zs ∧ List.Forall₂ R xs' zs' :=
  ⟨ys.take xs.length, ys.drop xs.length, List.take_append_drop _ _,
    (List.forall₂_take_append ys xs xs' h.flip).flip,
    (List.forall₂_drop_append ys xs xs' h.flip).flip⟩

theorem map_upToNul {ss : List String} (h : ∀ s ∈ ss, Utf8.NulFree s) :
    ss.map Utf8.upToNul = ss :=
  (List.map_congr_left fun s hs => Utf8.upToNul_eq_self (h s hs)).trans (List.map_id ss)

theorem Part.Stored.read {w : Writer} {im : Image} (inside : w.In im) {p : Part} {o : Offset}
    (h : p.Stored w o) : p.Read im o := by
  cases p with
  | name s => exact inside.text_eq h
  | protocols ss =>
    obtain ⟨os, array, stores⟩ := h
    exact ⟨os, array im inside, inside.texts_eq stores⟩

/-! ## The first pass -/

theorem writeProtocolNames_stored {ss : List String} {w w' : Writer} {o : Offset} (sound : w.Sound)
    (run : Returns (writeProtocolNames ss) w o w') : (Part.protocols ss).Stored w' o := by
  unfold writeProtocolNames at run
  obtain ⟨os, t, names, array⟩ := returns_bind.1 run
  have grew := (grows_arrayOrNull os).of_returns array
  exact ⟨os, fun im inside => arrayOrNull_reads array inside,
    (texts_store sound names).imp fun _ _ h => h.mono grew.heap⟩

theorem Part.write_stored {p : Part} {w w' : Writer} {o : Offset} (sound : w.Sound)
    (run : Returns p.write w o w') : p.Stored w' o := by
  cases p with
  | name s => exact text_stores sound run
  | protocols ss => exact writeProtocolNames_stored sound run

/-- Parts that are written one after another are left where the pass says. -/
theorem writeParts_stored {parts : List Part} {w w' : Writer} {refs : List Offset} (sound : w.Sound)
    (run : Returns (parts.mapM Part.write) w refs w') : List.Forall₂ (Part.Stored w') parts refs :=
  Returns.forall₂_of_mapM Part.grows_write (fun grew => grew.sound) (fun grew h => h.mono grew)
    (fun _ _ => Part.write_stored) sound run

/-- The first pass leaves the parts where it says. -/
theorem TypeExpr.writeParts_store (t : TypeExpr) {w w' : Writer} {refs : List Offset}
    (sound : w.Sound) (run : Returns t.writeParts w refs w') :
    List.Forall₂ (Part.Stored w') t.parts refs :=
  writeParts_stored sound (t.writeParts_eq ▸ run)

theorem writePartsOfTypes_store (ts : List TypeExpr) {w w' : Writer} {refs : List Offset}
    (sound : w.Sound) (run : Returns (writePartsOfTypes ts) w refs w') :
    List.Forall₂ (Part.Stored w') (partsOfTypes ts) refs :=
  writeParts_stored sound ((writePartsOfTypes_eq fun t _ => t.writeParts_eq) ▸ run)

/-! ## What a reader shows -/

mutual

/-- What is read of a type with so many levels to go. -/
def TypeExpr.shown? : (levels : Nat) → TypeExpr → Option TypeExpr
  | 0, _ => none
  | _ + 1, .scalar kind => some (.scalar kind)
  | _ + 1, .named kind name => some (.named kind (Utf8.upToNul name))
  | _ + 1, .object kind protocols => some (.object kind (protocols.map Utf8.upToNul))
  | levels + 1, .indirect kind target => (target.shown? levels).map (.indirect kind)
  | levels + 1, .sized kind element size => (element.shown? levels).map (.sized kind · size)
  | levels + 1, .callable kind signature => (shownTypes? levels signature).map (.callable kind)
  | levels + 1, .anonymous kind fields => (shownFieldTypes? levels fields).map fun types =>
    .anonymous kind (((fields.map Field.name).map Utf8.upToNul).zipWith Field.mk types)

/-- What is read of these types. -/
def shownTypes? (levels : Nat) : List TypeExpr → Option (List TypeExpr)
  | [] => some []
  | t :: ts => (t.shown? levels).bind fun t => (shownTypes? levels ts).map (t :: ·)

/-- What is read of the types of these fields. -/
def shownFieldTypes? (levels : Nat) : List Field → Option (List TypeExpr)
  | [] => some []
  | ⟨_, t⟩ :: fs => (t.shown? levels).bind fun t => (shownFieldTypes? levels fs).map (t :: ·)

end

theorem shownFieldTypes?_eq_shownTypes? (levels : Nat) (fs : List Field) :
    shownFieldTypes? levels fs = shownTypes? levels (fs.map Field.type) := by
  induction fs with
  | nil => rfl
  | cons f fs ih => cases f; simp [shownFieldTypes?, shownTypes?, ih]

/-- A type as it is shown where these types are read below its node. -/
def TypeExpr.shownOver (t : TypeExpr) (below : List TypeExpr) : TypeExpr :=
  match t with
  | .scalar kind => .scalar kind
  | .named kind name => .named kind (Utf8.upToNul name)
  | .object kind protocols => .object kind (protocols.map Utf8.upToNul)
  | .indirect kind target => .indirect kind (below.headD target)
  | .sized kind element size => .sized kind (below.headD element) size
  | .callable kind _ => .callable kind below
  | .anonymous kind fields =>
    .anonymous kind (((fields.map Field.name).map Utf8.upToNul).zipWith Field.mk below)

theorem TypeExpr.shown?_succ (t : TypeExpr) (levels : Nat) :
    t.shown? (levels + 1) = (shownTypes? levels t.children).map t.shownOver := by
  cases t with
  | scalar | named | object | callable => rfl
  | indirect _ target =>
    simp only [shown?, children, shownTypes?]
    cases target.shown? levels <;> rfl
  | sized _ element _ =>
    simp only [shown?, children, shownTypes?]
    cases element.shown? levels <;> rfl
  | anonymous =>
    rw [shown?, shownFieldTypes?_eq_shownTypes?]
    rfl

/-! ## The second pass -/

section

variable {im : Image} {w w' : Writer}

theorem byte_reads {v : UInt8} (inside : (w.append [v]).In im) :
    im.byte w.heap.size = .ok v ∧ positionAfter w.heap.size 1 = .ok (w.append [v]).heap.size :=
  ⟨Image.byte_of_has inside.has, inside.positionAfter rfl⟩

theorem smallCount_reads {n : Nat} {u : Unit} (run : Returns (writeSmallCount n) w u w')
    (inside : w'.In im) : readSmallCount im w.heap.size = .ok (n, w'.heap.size) := by
  unfold writeSmallCount at run
  dsimp only at run
  split_ifs at run with large
  · simp at run
  · simp only [returns_bind, returns_byte, returns_pure] at run
    obtain ⟨_, _, ⟨rfl, rfl⟩, -, rfl⟩ := run
    obtain ⟨byte, after⟩ := byte_reads inside
    have value : (UInt8.ofNat n).toNat = n := by
      rw [UInt8.toNat_ofNat']; omega
    rw [readSmallCount, byte, Except.ok_bind, after, value]
    rfl

theorem reference_reads {refs left : List Offset} (run : Returns (writeReference refs) w left w')
    (inside : w'.In im) :
    ∃ o, refs = o :: left ∧ im.pointer w.heap.size = .ok o ∧
      im.pastPointer w.heap.size = .ok w'.heap.size := by
  cases refs with
  | nil => exact (returns_throw.1 run).elim
  | cons o rest =>
    simp only [writeReference, returns_bind, returns_pointer, returns_pure] at run
    obtain ⟨_, _, ⟨le, rfl, rfl⟩, rfl, rfl⟩ := run
    obtain ⟨pointer, after⟩ := inside.pointer_reads le
    exact ⟨o, rfl, pointer, after⟩

theorem readName_eq {o target next : Offset} {s : String} (pointer : im.pointer o = .ok target)
    (after : im.pastPointer o = .ok next) (text : im.text target = .ok s) :
    readName im o = .ok (s, next) := by
  rw [readName, pointer, Except.ok_bind, text, Except.ok_bind, after]
  rfl

theorem readProtocolNames_eq {o target next : Offset} {ss : List String}
    (pointer : im.pointer o = .ok target) (after : im.pastPointer o = .ok next)
    (read : (Part.protocols ss).Read im target) :
    readProtocolNames im o = .ok (ss.map Utf8.upToNul, next) := by
  obtain ⟨os, array, texts⟩ := read
  rw [readProtocolNames, pointer, Except.ok_bind, array, Except.ok_bind, after, Except.ok_bind,
    texts]
  rfl

/-- Pointers to names are read as the names. -/
theorem references_read {names : List String} (read : List String) {first rest left : List Offset}
    (run : Returns (writeReferences names.length (first ++ rest)) w left w') (inside : w'.In im)
    (parts : List.Forall₂ (fun s o => im.text o = .ok (Utf8.upToNul s)) names first) :
    left = rest ∧ readMany (readName im) names.length w.heap.size read =
      .ok (read.reverse ++ names.map Utf8.upToNul, w'.heap.size) := by
  induction parts generalizing w read with
  | nil =>
    obtain ⟨rfl, rfl⟩ := returns_pure.1 run
    rw [List.map_nil, List.append_nil]
    exact ⟨rfl, rfl⟩
  | cons text _ ih =>
    simp only [List.length_cons, writeReferences, returns_bind] at run
    obtain ⟨refs, t, head, run⟩ := run
    have within := ((grows_writeReferences _ _).of_returns run).within inside
    obtain ⟨o, e, pointer, after⟩ := reference_reads head within
    obtain ⟨rfl, rfl⟩ := List.cons.inj e
    obtain ⟨rfl, others⟩ := ih (_ :: read) run
    refine ⟨rfl, ?_⟩
    rw [List.length_cons, readMany, readName_eq pointer after text, Except.ok_bind]
    exact others.trans (by rw [List.reverse_cons, List.append_assoc]; rfl)

/-- One value is read, then the others behind it. -/
theorem toOption_readMany {α : Type} {step : Offset → Except Error (α × Offset)} {n : Nat}
    {o next last : Offset} {x? : Option α} {xs? : Option (List α)} (read : List α)
    (first : (step o).toOption = x?.map (·, next))
    (others : ∀ read, (readMany step n next read).toOption =
      xs?.map fun xs => (read.reverse ++ xs, last)) :
    (readMany step (n + 1) o read).toOption =
      (x?.bind fun x => xs?.map (x :: ·)).map fun xs => (read.reverse ++ xs, last) := by
  rw [readMany, Except.toOption_bind, first]
  cases x? with
  | none => rfl
  | some x =>
    refine (others (x :: read)).trans ?_
    cases xs? with
    | none => rfl
    | some xs => exact congrArg (fun l => some (l, last)) (by simp)

/-- A node begins with its tag. -/
theorem TypeExpr.tag_reads {t : TypeExpr} {refs left : List Offset}
    (run : Returns (t.writeHead refs) w left w') (inside : w'.In im) :
    im.byte w.heap.size = .ok t.tag.byte ∧
      positionAfter w.heap.size 1 = .ok (w.append [t.tag.byte]).heap.size :=
  byte_reads (((t.grows_writePayload refs).of_returns (returns_writeHead.1 run)).within inside)

theorem readMany_one_bind {α β : Type} (step : Offset → Except Error (α × Offset)) (o : Offset)
    (f : List α × Offset → Except Error β) :
    readMany step 1 o [] >>= f = step o >>= fun (x, next) => f ([x], next) := by
  rw [readMany]
  cases step o <;> rfl

/-- The bytes of a node take the offsets of its own parts. Reading the node is reading its children behind
these bytes. -/
theorem TypeExpr.readTypeWithin_node {t : TypeExpr} {own rest left : List Offset}
    (run : Returns (t.writeHead (own ++ rest)) w left w') (inside : w'.In im)
    (parts : List.Forall₂ (Part.Read im) t.ownParts own) :
    left = rest ∧ ∀ levels, readTypeWithin im (levels + 1) w.heap.size =
      readMany (readTypeWithin im levels) t.children.length w'.heap.size [] >>= fun (below, next) =>
        .ok (t.shownOver below, next) := by
  obtain ⟨byte, after⟩ := tag_reads run inside
  have payload := returns_writeHead.1 run
  cases t with
  | scalar kind =>
    cases parts
    obtain ⟨rfl, rfl⟩ := returns_pure.1 payload
    refine ⟨rfl, fun levels => ?_⟩
    rw [readTypeWithin, byte, Except.ok_bind, Tag.ofByte?_byte]
    dsimp only [TypeExpr.tag]
    rw [after]
    rfl
  | named kind name =>
    obtain ⟨o, refs, pointer, past⟩ := reference_reads payload inside
    obtain - | ⟨text, ⟨⟩⟩ := parts
    obtain ⟨rfl, rfl⟩ := List.cons.inj refs
    refine ⟨rfl, fun levels => ?_⟩
    rw [readTypeWithin, byte, Except.ok_bind, Tag.ofByte?_byte]
    dsimp only [TypeExpr.tag]
    rw [after, Except.ok_bind, readName_eq pointer past text]
    rfl
  | object kind protocols =>
    obtain ⟨o, refs, pointer, past⟩ := reference_reads payload inside
    obtain - | ⟨names, ⟨⟩⟩ := parts
    obtain ⟨rfl, rfl⟩ := List.cons.inj refs
    refine ⟨rfl, fun levels => ?_⟩
    rw [readTypeWithin, byte, Except.ok_bind, Tag.ofByte?_byte]
    dsimp only [TypeExpr.tag]
    rw [after, Except.ok_bind, readProtocolNames_eq pointer past names]
    rfl
  | indirect kind target =>
    cases parts
    obtain ⟨rfl, rfl⟩ := returns_pure.1 payload
    refine ⟨rfl, fun levels => ?_⟩
    rw [readTypeWithin, byte, Except.ok_bind, Tag.ofByte?_byte]
    dsimp only [TypeExpr.tag]
    rw [after, Except.ok_bind]
    rw [children, List.length_singleton, readMany_one_bind]
    rfl
  | sized kind element size =>
    cases parts
    simp only [writePayload, returns_bind, returns_uint32, returns_pure] at payload
    obtain ⟨_, _, ⟨rfl, rfl⟩, rfl, rfl⟩ := payload
    refine ⟨rfl, fun levels => ?_⟩
    rw [readTypeWithin, byte, Except.ok_bind, Tag.ofByte?_byte]
    dsimp only [TypeExpr.tag]
    rw [after, Except.ok_bind, Image.uint32_of_has inside.has, Except.ok_bind,
      inside.positionAfter (LittleEndian.length_encode ..), Except.ok_bind]
    rw [children, List.length_singleton, readMany_one_bind]
    rfl
  | callable kind signature =>
    cases parts
    simp only [writePayload, returns_bind, returns_pure] at payload
    obtain ⟨_, _, count, rfl, rfl⟩ := payload
    refine ⟨rfl, fun levels => ?_⟩
    rw [readTypeWithin, byte, Except.ok_bind, Tag.ofByte?_byte]
    dsimp only [TypeExpr.tag]
    rw [after, Except.ok_bind, smallCount_reads count inside]
    rfl
  | anonymous kind fields =>
    simp only [writePayload, returns_bind] at payload
    obtain ⟨_, _, count, names⟩ := payload
    have within := ((grows_writeReferences _ _).of_returns names).within inside
    rw [← @List.length_map _ _ _ Field.name] at names
    obtain ⟨rfl, shown⟩ := references_read [] names inside
      (List.forall₂_map_left_iff.2 (List.forall₂_map_left_iff.1 parts))
    rw [List.length_map] at shown
    refine ⟨rfl, fun levels => ?_⟩
    rw [readTypeWithin, byte, Except.ok_bind, Tag.ofByte?_byte]
    dsimp only [TypeExpr.tag]
    rw [after, Except.ok_bind, smallCount_reads count within, Except.ok_bind, shown, Except.ok_bind,
      children, List.length_map]
    rfl

/-- However the type was written, its run is read as what is shown of it. The second pass takes the offsets
of its parts from the list and no others. -/
def TypeExpr.ReadsAsShown (im : Image) (t : TypeExpr) : Prop :=
  ∀ (levels : Nat) {w w' : Writer} {first rest left : List Offset},
    Returns (t.writeNode (first ++ rest)) w left w' → w'.In im →
      List.Forall₂ (Part.Read im) t.parts first →
        left = rest ∧ (readTypeWithin im levels w.heap.size).toOption =
          (t.shown? levels).map (·, w'.heap.size)

/-- The runs of several types are read as what is shown of the types. -/
theorem read_writeNodes {ts : List TypeExpr} (each : ∀ t ∈ ts, t.ReadsAsShown im) (levels : Nat)
    {first rest left : List Offset} (run : Returns (writeNodes ts (first ++ rest)) w left w')
    (inside : w'.In im) (parts : List.Forall₂ (Part.Read im) (partsOfTypes ts) first) :
    left = rest ∧ ∀ read, (readMany (readTypeWithin im levels) ts.length w.heap.size read).toOption =
      (shownTypes? levels ts).map fun shown => (read.reverse ++ shown, w'.heap.size) := by
  induction ts generalizing w first with
  | nil =>
    cases parts
    obtain ⟨rfl, rfl⟩ := returns_pure.1 run
    exact ⟨rfl, fun read => congrArg (fun l => some (l, _)) (List.append_nil _).symm⟩
  | cons t ts ih =>
    obtain ⟨shows, others⟩ := List.forall_mem_cons.1 each
    obtain ⟨ofHead, ofTail, rfl, head, tail⟩ := exists_append_of_forall₂ parts
    simp only [writeNodes, returns_bind, List.append_assoc] at run
    obtain ⟨refs, u, node, nodes⟩ := run
    have within := ((grows_writeNodes ts _).of_returns nodes).within inside
    obtain ⟨rfl, first⟩ := shows levels node within head
    obtain ⟨rfl, more⟩ := ih others nodes tail
    exact ⟨rfl, fun read => toOption_readMany read first more⟩

theorem TypeExpr.read_writeNode (t : TypeExpr) : t.ReadsAsShown im := by
  induction t using TypeExpr.induction with
  | node t ih =>
    intro levels w w' first rest left run inside parts
    obtain ⟨refs', u, head, below⟩ := returns_writeNode.1 run
    rw [parts_eq] at parts
    obtain ⟨own, inner, rfl, ofHead, ofBelow⟩ := exists_append_of_forall₂ parts
    rw [List.append_assoc] at head
    have within := ((grows_writeNodes t.children _).of_returns below).within inside
    obtain ⟨rfl, node⟩ := readTypeWithin_node head within ofHead
    have children (levels : Nat) := read_writeNodes ih levels below inside ofBelow
    refine ⟨(children 0).1, ?_⟩
    cases levels with
    | zero =>
      rw [shown?]
      rfl
    | succ levels =>
      rw [node, Except.toOption_bind, (children levels).2 [], shown?_succ]
      cases shownTypes? levels t.children <;> rfl

end

/-! ## Types and signatures -/

/-- The names in a type, those of protocols and fields included. -/
def TypeExpr.texts (t : TypeExpr) : List String := t.parts.flatMap Part.texts

theorem heightOfTypes_le {ts : List TypeExpr} {levels : Nat} (h : ∀ t ∈ ts, t.height ≤ levels) :
    heightOfTypes ts ≤ levels := by
  induction ts with
  | nil => exact Nat.zero_le levels
  | cons t ts ih =>
    obtain ⟨head, tail⟩ := List.forall_mem_cons.1 h
    exact Nat.max_le.2 ⟨head, ih tail⟩

theorem zipWith_fields (fields : List Field) :
    (fields.map Field.name).zipWith Field.mk (fields.map Field.type) = fields := by
  induction fields with
  | nil => rfl
  | cons f fs ih =>
    cases f
    rw [List.map_cons, List.map_cons, List.zipWith_cons_cons, ih]

/-- No text in these parts has `U+0000`. -/
def PlainParts (parts : List Part) : Prop := ∀ p ∈ parts, ∀ s ∈ p.texts, Utf8.NulFree s

theorem plainParts_append {parts parts' : List Part} :
    PlainParts (parts ++ parts') ↔ PlainParts parts ∧ PlainParts parts' := List.forall_mem_append

theorem shownTypes?_eq {ts : List TypeExpr}
    (each : ∀ t ∈ ts, ∀ {levels : Nat}, t.height ≤ levels → PlainParts t.parts →
      t.shown? levels = some t) {levels : Nat} (low : heightOfTypes ts ≤ levels)
    (plain : PlainParts (partsOfTypes ts)) : shownTypes? levels ts = some ts := by
  induction ts with
  | nil => rfl
  | cons t ts ih =>
    obtain ⟨first, others⟩ := List.forall_mem_cons.1 each
    obtain ⟨head, tail⟩ := plainParts_append.1 plain
    rw [shownTypes?, first (Nat.max_le.1 low).1 head, Option.bind_some,
      ih others (Nat.max_le.1 low).2 tail, Option.map_some]

theorem TypeExpr.shownOver_children {t : TypeExpr} (plain : PlainParts t.ownParts) :
    t.shownOver t.children = t := by
  cases t with
  | scalar | indirect | sized | callable => rfl
  | named kind name =>
    have free := plain _ (List.mem_singleton_self _) name (List.mem_singleton_self _)
    rw [shownOver, Utf8.upToNul_eq_self free]
  | object kind protocols =>
    have free : ∀ s ∈ protocols, Utf8.NulFree s := plain _ (List.mem_singleton_self _)
    rw [shownOver, map_upToNul free]
  | anonymous kind fields =>
    have free : ∀ s ∈ fields.map Field.name, Utf8.NulFree s := by
      intro s hs
      obtain ⟨f, hf, rfl⟩ := List.mem_map.1 hs
      exact plain _ (List.mem_map_of_mem hf) _ (List.mem_singleton_self _)
    rw [shownOver, map_upToNul free, children, zipWith_fields]

/-- A type that is low enough, and whose texts can be stored, is shown as it is. -/
theorem TypeExpr.shown?_eq (t : TypeExpr) {levels : Nat} (low : t.height ≤ levels)
    (plain : PlainParts t.parts) : t.shown? levels = some t := by
  induction t using TypeExpr.induction generalizing levels with
  | node t ih =>
    rw [height_eq] at low
    rw [parts_eq] at plain
    obtain ⟨own, inner⟩ := plainParts_append.1 plain
    cases levels with
    | zero => cases low
    | succ levels =>
      rw [shown?_succ, shownTypes?_eq ih (Nat.le_of_succ_le_succ low) inner, Option.map_some,
        shownOver_children own]

theorem length_shownTypes? {levels : Nat} {ts shown : List TypeExpr}
    (h : shownTypes? levels ts = some shown) : shown.length = ts.length := by
  induction ts generalizing shown with
  | nil =>
    cases h
    rfl
  | cons t ts ih =>
    rw [shownTypes?, Option.bind_eq_some_iff] at h
    obtain ⟨_, -, h⟩ := h
    obtain ⟨others, rest, rfl⟩ := Option.map_eq_some_iff.1 h
    exact congrArg Nat.succ (ih rest)

theorem shownTypes?_of_plain {ts : List TypeExpr} (low : ∀ t ∈ ts, t.height ≤ deepestType)
    (plain : ∀ t ∈ ts, ∀ s ∈ t.texts, Utf8.NulFree s) : shownTypes? deepestType ts = some ts := by
  refine shownTypes?_eq (fun t _ => t.shown?_eq) (heightOfTypes_le low) ?_
  rw [partsOfTypes_eq]
  intro p hp s hs
  obtain ⟨t, ht, hp⟩ := List.mem_flatMap.1 hp
  exact plain t ht s (List.mem_flatMap.2 ⟨p, hp, hs⟩)

theorem TypeExpr.grows_write (t : TypeExpr) : Grows t.write :=
  t.grows_writeParts.bind fun _ => grows_position.bind fun _ =>
    (t.grows_writeNode _).bind fun _ => keeps_pure _

theorem grows_writeSignature (ts : List TypeExpr) : Grows (writeSignature ts) :=
  (grows_writePartsOfTypes ts).bind fun _ => (grows_count _).bind fun _ =>
    (grows_writeNodes ts _).bind fun _ => keeps_pure _

section

variable {im : Image} {w w' : Writer} {o : Offset}

/-- **A type is read where it was written**, as far as it can be, and the reader stops at its end. -/
theorem TypeExpr.write_shows {t : TypeExpr} (sound : w.Sound) (run : Returns t.write w o w')
    (inside : w'.In im) :
    (readType im o).toOption = (t.shown? deepestType).map (·, w'.heap.size) := by
  unfold TypeExpr.write at run
  simp only [returns_bind, returns_position, returns_pure] at run
  obtain ⟨refs, u, first, _, _, ⟨rfl, rfl⟩, _, _, node, rfl, rfl⟩ := run
  have within := ((t.grows_writeNode refs).of_returns node).within inside
  have parts := (t.writeParts_store sound first).imp fun _ _ => Part.Stored.read within
  rw [← List.append_nil refs] at node
  exact (t.read_writeNode deepestType node inside parts).2

theorem writeSignature_shows {ts : List TypeExpr} (sound : w.Sound)
    (run : Returns (writeSignature ts) w o w') (inside : w'.In im) :
    (readSignature im o).toOption = shownTypes? deepestType ts := by
  unfold writeSignature at run
  simp only [returns_bind, returns_count, returns_pure] at run
  obtain ⟨refs, u, first, _, _, ⟨few, rfl, rfl⟩, _, _, nodes, rfl, rfl⟩ := run
  have within := ((grows_writeNodes ts refs).of_returns nodes).within inside
  have parts := (writePartsOfTypes_store ts sound first).imp fun _ _ =>
    Part.Stored.read ((Writer.grew_append _ _).within within)
  rw [← List.append_nil refs] at nodes
  have read := (read_writeNodes (fun t _ => t.read_writeNode) deepestType nodes inside parts).2 []
  obtain ⟨count, after⟩ := within.count_reads few
  rw [readSignature, count, Except.ok_bind, after, Except.ok_bind, Except.toOption_bind]
  unfold readType
  rw [read]
  cases shownTypes? deepestType ts <;> rfl

/-- **A type is read back where it was written**, if it can be. -/
theorem TypeExpr.write_reads {t : TypeExpr} (sound : w.Sound) (run : Returns t.write w o w')
    (inside : w'.In im) (low : t.height ≤ deepestType) (plain : ∀ s ∈ t.texts, Utf8.NulFree s) :
    readType im o = .ok (t, w'.heap.size) := by
  have shown := t.shown?_eq low fun p hp s hs => plain s (List.mem_flatMap.2 ⟨p, hp, hs⟩)
  have read := t.write_shows sound run inside
  rw [shown] at read
  exact Except.toOption_eq_some.1 read

theorem writeSignature_reads {ts : List TypeExpr} (sound : w.Sound)
    (run : Returns (writeSignature ts) w o w') (inside : w'.In im)
    (low : ∀ t ∈ ts, t.height ≤ deepestType) (plain : ∀ t ∈ ts, ∀ s ∈ t.texts, Utf8.NulFree s) :
    readSignature im o = .ok ts :=
  Except.toOption_eq_some.1 <|
    (writeSignature_shows sound run inside).trans (shownTypes?_of_plain low plain)

theorem TypeExpr.le_of_write {t : TypeExpr} (run : Returns t.write w o w') : w.heap.size ≤ o := by
  unfold TypeExpr.write at run
  simp only [returns_bind, returns_position, returns_pure] at run
  obtain ⟨refs, u, first, _, _, ⟨rfl, rfl⟩, _, _, -, rfl, -⟩ := run
  exact (t.grows_writeParts.of_returns first).size_le

theorem le_of_writeSignature {ts : List TypeExpr} (run : Returns (writeSignature ts) w o w') :
    w.heap.size ≤ o := by
  unfold writeSignature at run
  simp only [returns_bind, returns_count, returns_pure] at run
  obtain ⟨refs, u, first, _, _, ⟨-, rfl, -⟩, _, _, -, rfl, -⟩ := run
  exact ((grows_writePartsOfTypes ts).of_returns first).size_le

end

end DeclArchive
