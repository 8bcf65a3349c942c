import DeclArchive.Proofs.TypeExpr

/-!
# Where the nodes of a type are

The run of a type is as long as its shape and the widths say (`TypeExpr.size_writeNode`).
`TypeExpr.places` lists its nodes in the order in which they are written (`TypeExpr.map_type_places`),
with their depths and offsets; at each offset is the tag of the node (`TypeExpr.places_tagged`).

A reader that may only go so many levels down and meets a higher type reads the nodes before the first
one that is too deep, and stops there (`TypeExpr.read_tooDeep`).
-/

namespace DeclArchive

open Write

/-! ## Lengths -/

section

variable {w w' : Writer} {refs left : List Offset}

theorem size_writeNodes {ts : List TypeExpr}
    (each : ∀ t ∈ ts, ∀ {w w' : Writer} {refs left : List Offset},
      Returns (t.writeNode refs) w left w' → w'.heap.size = w.heap.size + t.runSize w.format)
    (run : Returns (writeNodes ts refs) w left w') :
    w'.heap.size = w.heap.size + runSizeOfTypes w.format ts := by
  induction ts generalizing w refs with
  | nil =>
    obtain ⟨-, rfl⟩ := returns_pure.1 run
    rfl
  | cons t ts ih =>
    obtain ⟨first, others⟩ := List.forall_mem_cons.1 each
    simp only [writeNodes, returns_bind] at run
    obtain ⟨refs', u, node, nodes⟩ := run
    have format := ((t.grows_writeNode refs).of_returns node).format
    rw [ih others nodes, first node, format, runSizeOfTypes, Nat.add_assoc]

/-- The run of a type has the length that its shape and the widths give it. -/
theorem TypeExpr.size_writeNode {t : TypeExpr} (run : Returns (t.writeNode refs) w left w') :
    w'.heap.size = w.heap.size + t.runSize w.format := by
  induction t using TypeExpr.induction generalizing w w' refs left with
  | node t ih =>
    obtain ⟨refs', u, head, below⟩ := returns_writeNode.1 run
    have format := ((t.grows_writeHead refs).of_returns head).format
    rw [size_writeNodes ih below, size_writeHead head, format, runSize_eq, Nat.add_assoc]

end

/-! ## Places -/

/-- A node of a type: how many nodes are above it, where its bytes begin, and the type of which it is
the root. -/
structure Place where
  depth : Nat
  offset : Offset
  type : TypeExpr

mutual

/-- The nodes of a type whose run begins at `o`, each before those below it. -/
def TypeExpr.places (f : Format) (depth : Nat) (o : Offset) (t : TypeExpr) : List Place :=
  ⟨depth, o, t⟩ ::
    let below := o + t.headSize f
    match t with
    | .scalar _ | .object _ _ | .named _ _ => []
    | .indirect _ target => target.places f (depth + 1) below
    | .sized _ element _ => element.places f (depth + 1) below
    | .callable _ signature => placesOfTypes f (depth + 1) below signature
    | .anonymous _ fields => placesOfFields f (depth + 1) below fields

/-- The nodes of types whose runs begin at `o`. -/
def placesOfTypes (f : Format) (depth : Nat) (o : Offset) : List TypeExpr → List Place
  | [] => []
  | t :: ts => t.places f depth o ++ placesOfTypes f depth (o + t.runSize f) ts

/-- The nodes of the types of fields whose runs begin at `o`. -/
def placesOfFields (f : Format) (depth : Nat) (o : Offset) : List Field → List Place
  | [] => []
  | ⟨_, t⟩ :: fs => t.places f depth o ++ placesOfFields f depth (o + t.runSize f) fs

end

section

variable {f : Format} {depth : Nat} {o : Offset}

theorem placesOfFields_eq (fs : List Field) :
    placesOfFields f depth o fs = placesOfTypes f depth o (fs.map Field.type) := by
  induction fs generalizing o with
  | nil => rfl
  | cons field fs ih => cases field; simp [placesOfFields, placesOfTypes, ih]

theorem TypeExpr.places_eq (t : TypeExpr) :
    t.places f depth o =
      ⟨depth, o, t⟩ :: placesOfTypes f (depth + 1) (o + t.headSize f) t.children := by
  cases t <;> rw [places] <;> simp [children, placesOfTypes, placesOfFields_eq]

theorem map_type_placesOfTypes {ts : List TypeExpr}
    (each : ∀ t ∈ ts, ∀ {depth : Nat} {o : Offset},
      (t.places f depth o).map Place.type = t.subtypes) :
    (placesOfTypes f depth o ts).map Place.type = subtypesOfTypes ts := by
  induction ts generalizing o with
  | nil => rfl
  | cons t ts ih =>
    obtain ⟨first, others⟩ := List.forall_mem_cons.1 each
    rw [placesOfTypes, List.map_append, first, ih others, subtypesOfTypes]

/-- The nodes are those of the type and all types in it. -/
theorem TypeExpr.map_type_places (t : TypeExpr) :
    (t.places f depth o).map Place.type = t.subtypes := by
  induction t using TypeExpr.induction generalizing depth o with
  | node t ih => rw [places_eq, List.map_cons, map_type_placesOfTypes ih, subtypes_eq]

theorem depth_lt_of_mem_placesOfTypes {ts : List TypeExpr} {place : Place}
    (each : ∀ t ∈ ts, ∀ {depth : Nat} {o : Offset}, place ∈ t.places f depth o →
      place.depth < depth + t.height)
    (mem : place ∈ placesOfTypes f depth o ts) : place.depth < depth + heightOfTypes ts := by
  induction ts generalizing o with
  | nil => cases mem
  | cons t ts ih =>
    obtain ⟨first, others⟩ := List.forall_mem_cons.1 each
    rw [heightOfTypes]
    rcases List.mem_append.1 mem with mem | mem
    · have := first mem
      omega
    · have := ih others mem
      omega

/-- No node is as deep as the type is high. -/
theorem TypeExpr.depth_lt_of_mem_places {t : TypeExpr} {place : Place}
    (mem : place ∈ t.places f depth o) : place.depth < depth + t.height := by
  induction t using TypeExpr.induction generalizing depth o with
  | node t ih =>
    rw [height_eq]
    rw [places_eq] at mem
    rcases List.mem_cons.1 mem with rfl | mem
    · show depth < _
      omega
    · have := depth_lt_of_mem_placesOfTypes ih mem
      omega

end

/-! ## What is at a place -/

section

variable {im : Image} {w w' : Writer} {refs left : List Offset} {depth : Nat}

theorem placesOfTypes_tagged {ts : List TypeExpr}
    (each : ∀ t ∈ ts, ∀ {w w' : Writer} {refs left : List Offset} {depth : Nat},
      Returns (t.writeNode refs) w left w' → w'.In im →
        ∀ place ∈ t.places w.format depth w.heap.size,
          im.byte place.offset = .ok place.type.tag.byte)
    (run : Returns (writeNodes ts refs) w left w') (inside : w'.In im) :
    ∀ place ∈ placesOfTypes w.format depth w.heap.size ts,
      im.byte place.offset = .ok place.type.tag.byte := by
  induction ts generalizing w refs with
  | nil => exact nofun
  | cons t ts ih =>
    obtain ⟨first, others⟩ := List.forall_mem_cons.1 each
    simp only [writeNodes, returns_bind] at run
    obtain ⟨refs', u, node, nodes⟩ := run
    have grew := (t.grows_writeNode refs).of_returns node
    have within := ((grows_writeNodes ts refs').of_returns nodes).within inside
    have rest := ih others nodes
    rw [grew.format, TypeExpr.size_writeNode node] at rest
    exact List.forall_mem_append.2 ⟨first node within, rest⟩

/-- Each node begins with its tag. -/
theorem TypeExpr.places_tagged {t : TypeExpr} (run : Returns (t.writeNode refs) w left w')
    (inside : w'.In im) : ∀ place ∈ t.places w.format depth w.heap.size,
      im.byte place.offset = .ok place.type.tag.byte := by
  induction t using TypeExpr.induction generalizing w w' refs left depth with
  | node t ih =>
    obtain ⟨refs', u, head, below⟩ := returns_writeNode.1 run
    have grew := (t.grows_writeHead refs).of_returns head
    have within := ((grows_writeNodes t.children refs').of_returns below).within inside
    have rest : ∀ place ∈ placesOfTypes u.format (depth + 1) u.heap.size t.children,
        im.byte place.offset = .ok place.type.tag.byte := placesOfTypes_tagged ih below inside
    rw [grew.format, size_writeHead head] at rest
    rw [places_eq]
    exact List.forall_mem_cons.2 ⟨(tag_reads head within).1, rest⟩

end

/-! ## Types that are too high -/

theorem isSome_shownTypes? {levels : Nat} {ts : List TypeExpr}
    (each : ∀ t ∈ ts, ∀ {levels : Nat}, t.height ≤ levels → (t.shown? levels).isSome)
    (low : heightOfTypes ts ≤ levels) : (shownTypes? levels ts).isSome := by
  induction ts with
  | nil => rfl
  | cons t ts ih =>
    obtain ⟨first, others⟩ := List.forall_mem_cons.1 each
    obtain ⟨head, tail⟩ := Nat.max_le.1 low
    obtain ⟨shown, shows⟩ := Option.isSome_iff_exists.1 (first head)
    simp [shownTypes?, shows, ih others tail]

/-- Something is read of every type that is low enough. -/
theorem TypeExpr.isSome_shown? (t : TypeExpr) {levels : Nat} (low : t.height ≤ levels) :
    (t.shown? levels).isSome := by
  induction t using TypeExpr.induction generalizing levels with
  | node t ih =>
    rw [height_eq] at low
    cases levels with
    | zero => cases low
    | succ levels =>
      rw [shown?_succ, Option.isSome_map]
      exact isSome_shownTypes? ih (Nat.le_of_succ_le_succ low)

/-- The first node so deep. -/
def firstAt? (depth : Nat) (places : List Place) : Option Place :=
  places.find? (·.depth = depth)

section

variable {im : Image}

/-- However the type was written, a reader of too few levels stops at its first node that is too deep. -/
def TypeExpr.StopsReader (im : Image) (t : TypeExpr) : Prop :=
  ∀ (depth : Nat) {levels : Nat} {w w' : Writer} {first rest left : List Offset}, levels < t.height →
    Returns (t.writeNode (first ++ rest)) w left w' → w'.In im →
      List.Forall₂ (Part.Read im) t.parts first →
        ∃ place, firstAt? (depth + levels) (t.places w.format depth w.heap.size) = some place ∧
          readTypeWithin im levels w.heap.size = .error (.malformed place.offset .nestingTooDeep)

theorem readMany_tooDeep {ts : List TypeExpr} (each : ∀ t ∈ ts, t.StopsReader im) (depth : Nat)
    {levels : Nat} {w w' : Writer} {first rest left : List Offset}
    (high : levels < heightOfTypes ts) (run : Returns (writeNodes ts (first ++ rest)) w left w')
    (inside : w'.In im) (parts : List.Forall₂ (Part.Read im) (partsOfTypes ts) first) :
    ∃ place, firstAt? (depth + levels) (placesOfTypes w.format depth w.heap.size ts) = some place ∧
      ∀ read, readMany (readTypeWithin im levels) ts.length w.heap.size read =
        .error (.malformed place.offset .nestingTooDeep) := by
  induction ts generalizing w first with
  | nil => cases high
  | cons t ts ih =>
    obtain ⟨stops, others⟩ := List.forall_mem_cons.1 each
    obtain ⟨ofHead, ofTail, rfl, head, tail⟩ := exists_append_of_forall₂ parts
    simp only [writeNodes, returns_bind, List.append_assoc] at run
    obtain ⟨refs, u, node, nodes⟩ := run
    have grew := (t.grows_writeNode _).of_returns node
    have within := ((grows_writeNodes ts _).of_returns nodes).within inside
    unfold firstAt?
    rw [placesOfTypes, List.find?_append]
    by_cases deep : levels < t.height
    · obtain ⟨place, found, fails⟩ := stops depth deep node within head
      refine ⟨place, ?_, fun read => ?_⟩
      · rw [show List.find? _ _ = some place from found, Option.some_or]
      · rw [List.length_cons, readMany, fails]
        rfl
    · obtain ⟨rfl, reads⟩ := t.read_writeNode levels node within head
      obtain ⟨shown, shows⟩ := Option.isSome_iff_exists.1 (t.isSome_shown? (Nat.not_lt.1 deep))
      rw [shows] at reads
      have higher : levels < heightOfTypes ts := by
        rw [heightOfTypes] at high
        omega
      obtain ⟨place, found, fails⟩ := ih others higher nodes tail
      rw [grew.format, TypeExpr.size_writeNode node] at found
      have none : (t.places w.format depth w.heap.size).find? (·.depth = depth + levels) = none := by
        simp only [List.find?_eq_none, decide_eq_true_eq]
        intro place mem
        have := TypeExpr.depth_lt_of_mem_places mem
        omega
      refine ⟨place, ?_, fun read => ?_⟩
      · rw [none, Option.none_or]
        exact found
      · rw [List.length_cons, readMany, Except.toOption_eq_some.1 reads, Except.ok_bind]
        exact fails _

/-- A reader that has too few levels for a type stops at its first node that is too deep. -/
theorem TypeExpr.read_tooDeep (t : TypeExpr) : t.StopsReader im := by
  induction t using TypeExpr.induction with
  | node t ih =>
    intro depth levels w w' first rest left high run inside parts
    unfold firstAt?
    rw [places_eq, List.find?_cons]
    cases levels with
    | zero => exact ⟨⟨depth, w.heap.size, t⟩, by simp, rfl⟩
    | succ levels =>
      rw [height_eq] at high
      obtain ⟨refs', u, head, below⟩ := returns_writeNode.1 run
      rw [parts_eq] at parts
      obtain ⟨own, inner, rfl, ofHead, ofBelow⟩ := exists_append_of_forall₂ parts
      rw [List.append_assoc] at head
      have grew := (t.grows_writeHead _).of_returns head
      have within := ((grows_writeNodes t.children _).of_returns below).within inside
      obtain ⟨rfl, node⟩ := readTypeWithin_node head within ofHead
      obtain ⟨place, found, fails⟩ :=
        readMany_tooDeep ih (depth + 1) (Nat.lt_of_succ_lt_succ high) below inside ofBelow
      rw [grew.format, size_writeHead head, Nat.add_right_comm] at found
      refine ⟨place, ?_, by rw [node, fails []]; rfl⟩
      have lower : ¬ depth = depth + (levels + 1) := by omega
      simp only [lower, decide_false]
      exact found

end

end DeclArchive
