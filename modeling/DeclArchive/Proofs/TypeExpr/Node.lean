import DeclArchive.Proofs.Subtypes
import DeclArchive.Proofs.Writer
import DeclArchive.TypeExpr.Encode
import Mathlib.Algebra.Ring.Nat

/-!
# The nodes of a type

A type is written in two passes. The first one writes its parts (`TypeExpr.parts`), the names and protocol
arrays, one after another (`TypeExpr.writeParts_eq`). The second one writes a run of bytes: those of the
node (`TypeExpr.writeHead`), which take `TypeExpr.headSize` bytes, and the runs of the children behind them
(`TypeExpr.writeNode_eq`). The parts are those of the node, then those of the children
(`TypeExpr.parts_eq`).
-/

namespace DeclArchive

open Write

/-! ## Parts -/

/-- What a type keeps outside its run. -/
inductive Part where
  | name (s : String)
  | protocols (ss : List String)

/-- The texts of a part. -/
def Part.texts : Part → List String
  | .name s => [s]
  | .protocols ss => ss

mutual

/-- The parts of a type, depth first. -/
def TypeExpr.parts : TypeExpr → List Part
  | .scalar _ => []
  | .named _ name => [.name name]
  | .object _ protocols => [.protocols protocols]
  | .indirect _ target => target.parts
  | .sized _ element _ => element.parts
  | .callable _ signature => partsOfTypes signature
  | .anonymous _ fields => fields.map (fun f => .name f.name) ++ partsOfFields fields

/-- The parts of these types. -/
def partsOfTypes : List TypeExpr → List Part
  | [] => []
  | t :: ts => t.parts ++ partsOfTypes ts

/-- The parts of the types of these fields. -/
def partsOfFields : List Field → List Part
  | [] => []
  | ⟨_, t⟩ :: fs => t.parts ++ partsOfFields fs

end

theorem partsOfTypes_eq (ts : List TypeExpr) : partsOfTypes ts = ts.flatMap TypeExpr.parts := by
  induction ts with
  | nil => rfl
  | cons t ts ih => rw [partsOfTypes, ih, List.flatMap_cons]

/-! ### Fields are named types -/

section

variable (fs : List Field)

theorem heightOfFields_eq : heightOfFields fs = heightOfTypes (fs.map Field.type) := by
  induction fs with
  | nil => rfl
  | cons f fs ih => cases f; simp [heightOfFields, heightOfTypes, ih]

theorem nodesOfFields_eq : nodesOfFields fs = nodesOfTypes (fs.map Field.type) := by
  induction fs with
  | nil => rfl
  | cons f fs ih => cases f; simp [nodesOfFields, nodesOfTypes, ih]

theorem partsOfFields_eq : partsOfFields fs = partsOfTypes (fs.map Field.type) := by
  induction fs with
  | nil => rfl
  | cons f fs ih => cases f; simp [partsOfFields, partsOfTypes, ih]

theorem runSizeOfFields_eq (f : Format) :
    runSizeOfFields f fs = runSizeOfTypes f (fs.map Field.type) := by
  induction fs with
  | nil => rfl
  | cons f fs ih => cases f; simp [runSizeOfFields, runSizeOfTypes, ih]

theorem writeFieldNodes_eq (refs : List Offset) :
    writeFieldNodes fs refs = writeNodes (fs.map Field.type) refs := by
  induction fs generalizing refs with
  | nil => rfl
  | cons f fs ih => cases f; simp [writeFieldNodes, writeNodes, ih]

end

/-! ## Measures -/

/-- The bytes of a node. -/
def TypeExpr.headSize (f : Format) : TypeExpr → Nat
  | .scalar _ | .indirect _ _ => 1
  | .named _ _ | .object _ _ => 1 + f.pointerWidth
  | .sized _ _ _ => 5
  | .callable _ _ => 2
  | .anonymous _ fields => 2 + f.pointerWidth * fields.length

/-- What a node keeps outside its run. -/
def TypeExpr.ownParts : TypeExpr → List Part
  | .scalar _ | .indirect _ _ | .sized _ _ _ | .callable _ _ => []
  | .named _ name => [.name name]
  | .object _ protocols => [.protocols protocols]
  | .anonymous _ fields => fields.map fun f => .name f.name

namespace TypeExpr

variable (t : TypeExpr)

theorem height_eq : t.height = heightOfTypes t.children + 1 := by
  cases t <;> simp [height, children, heightOfTypes, heightOfFields_eq]

theorem nodes_eq : t.nodes = nodesOfTypes t.children + 1 := by
  cases t <;> simp [nodes, children, nodesOfTypes, nodesOfFields_eq]

theorem parts_eq : t.parts = t.ownParts ++ partsOfTypes t.children := by
  cases t <;> simp [parts, ownParts, children, partsOfTypes, partsOfFields_eq]

theorem runSize_eq (f : Format) : t.runSize f = t.headSize f + runSizeOfTypes f t.children := by
  cases t <;> simp [runSize, headSize, children, runSizeOfTypes, runSizeOfFields_eq]

theorem nodes_pos : 0 < t.nodes := by
  rw [nodes_eq]
  exact Nat.succ_pos _

theorem headSize_pos (f : Format) : 0 < t.headSize f := by
  cases t with
  | scalar | indirect | sized | callable => exact Nat.succ_pos _
  | named | object | anonymous => exact Nat.add_pos_left (Nat.succ_pos _) _

end TypeExpr

theorem length_le_nodesOfTypes (ts : List TypeExpr) : ts.length ≤ nodesOfTypes ts := by
  induction ts with
  | nil => exact Nat.le_refl _
  | cons t ts ih =>
    have := t.nodes_pos
    rw [List.length_cons, nodesOfTypes]
    omega

theorem nodesOfTypes_eq (ts : List TypeExpr) : nodesOfTypes ts = (ts.map TypeExpr.nodes).sum := by
  induction ts with
  | nil => rfl
  | cons t ts ih => rw [nodesOfTypes, ih, List.map_cons, List.sum_cons]

section

variable {f : Format} {measure own : TypeExpr → Nat}

theorem sum_le_runSizeOfTypes {ts : List TypeExpr} (each : ∀ t ∈ ts, measure t ≤ t.runSize f) :
    (ts.map measure).sum ≤ runSizeOfTypes f ts := by
  induction ts with
  | nil => exact Nat.le_refl _
  | cons t ts ih =>
    obtain ⟨first, others⟩ := List.forall_mem_cons.1 each
    rw [List.map_cons, List.sum_cons, runSizeOfTypes]
    exact Nat.add_le_add first (ih others)

/-- What adds up over the nodes of a type, and is no more at a node than its bytes, is no more than the run. -/
theorem TypeExpr.measure_le_runSize
    (addsUp : ∀ t : TypeExpr, measure t = own t + (t.children.map measure).sum)
    (node : ∀ t, own t ≤ t.headSize f) (t : TypeExpr) : measure t ≤ t.runSize f := by
  induction t using TypeExpr.induction with
  | node t ih =>
    rw [addsUp, runSize_eq]
    exact Nat.add_le_add (node t) (sum_le_runSizeOfTypes ih)

end

/-- Each node of a type has a byte of its own in the run. -/
theorem TypeExpr.nodes_le_runSize (t : TypeExpr) (f : Format) : t.nodes ≤ t.runSize f := by
  have addsUp (t : TypeExpr) : t.nodes = 1 + (t.children.map nodes).sum := by
    rw [nodes_eq, nodesOfTypes_eq, Nat.add_comm]
  exact measure_le_runSize addsUp (fun t => t.headSize_pos f) t

/-! ## The first pass -/

/-- Writes what a type keeps outside its run. -/
def Part.write : Part → Write Offset
  | .name s => Write.text s
  | .protocols ss => writeProtocolNames ss

theorem texts_eq_writeNames (fs : List Field) :
    Write.texts (fs.map Field.name) = (fs.map fun f => Part.name f.name).mapM Part.write := by
  simp [Write.texts, List.mapM_map, Function.comp_def, Part.write]

theorem writePartsOfTypes_eq {ts : List TypeExpr}
    (each : ∀ t ∈ ts, t.writeParts = t.parts.mapM Part.write) :
    writePartsOfTypes ts = (partsOfTypes ts).mapM Part.write := by
  induction ts with
  | nil => simp [writePartsOfTypes, partsOfTypes]
  | cons t ts ih =>
    obtain ⟨first, others⟩ := List.forall_mem_cons.1 each
    rw [writePartsOfTypes, first, ih others, partsOfTypes, List.mapM_append]

theorem writePartsOfFields_eq (fs : List Field) :
    writePartsOfFields fs = writePartsOfTypes (fs.map Field.type) := by
  induction fs with
  | nil => rfl
  | cons f fs ih => cases f; simp [writePartsOfFields, writePartsOfTypes, ih]

/-- The first pass writes the parts one after another. -/
theorem TypeExpr.writeParts_eq (t : TypeExpr) : t.writeParts = t.parts.mapM Part.write := by
  induction t using TypeExpr.induction with
  | node t ih =>
    have below := writePartsOfTypes_eq ih
    cases t with
    | scalar => simp [writeParts, parts]
    | named => simp [writeParts, parts, Part.write]
    | object => simp [writeParts, parts, Part.write]
    | indirect _ target => exact ih target (List.mem_singleton_self _)
    | sized _ element _ => exact ih element (List.mem_singleton_self _)
    | callable => exact below
    | anonymous _ fields =>
      rw [writeParts, parts, texts_eq_writeNames, writePartsOfFields_eq, partsOfFields_eq,
        List.mapM_append]
      rw [children] at below
      rw [below]

theorem grows_writeProtocolNames (protocols : List String) :
    Grows (writeProtocolNames protocols) :=
  (grows_texts protocols).bind fun _ => grows_arrayOrNull _

theorem Part.grows_write (p : Part) : Grows p.write := by
  cases p with
  | name s => exact grows_text s
  | protocols ss => exact grows_writeProtocolNames ss

theorem grows_writePartsOfTypes (ts : List TypeExpr) : Grows (writePartsOfTypes ts) := by
  rw [writePartsOfTypes_eq fun t _ => t.writeParts_eq]
  exact Keeps.mapM Part.grows_write _

theorem TypeExpr.grows_writeParts (t : TypeExpr) : Grows t.writeParts := by
  rw [writeParts_eq]
  exact Keeps.mapM Part.grows_write _

/-! ## The bytes of a node -/

/-- Writes what follows the tag of a node and returns the offsets that it did not take. -/
def TypeExpr.writePayload (t : TypeExpr) (refs : List Offset) : Write (List Offset) := do
  match t with
  | .scalar _ | .indirect _ _ => return refs
  | .named _ _ | .object _ _ => writeReference refs
  | .sized _ _ size =>
    let _ ← Write.uint32 size
    return refs
  | .callable _ signature =>
    writeSmallCount signature.length
    return refs
  | .anonymous _ fields =>
    writeSmallCount fields.length
    writeReferences fields.length refs

/-- Writes the bytes of a node and returns the offsets that it did not take. -/
def TypeExpr.writeHead (t : TypeExpr) (refs : List Offset) : Write (List Offset) := do
  let _ ← Write.byte t.tag.byte
  t.writePayload refs

/-- A node is written before its children. -/
theorem TypeExpr.writeNode_eq (t : TypeExpr) (refs : List Offset) :
    t.writeNode refs = t.writeHead refs >>= writeNodes t.children := by
  cases t <;> simp [writeNode, writeHead, writePayload, children, writeNodes, writeFieldNodes_eq]

theorem onlyAppends_writeSmallCount (n : Nat) : OnlyAppends (writeSmallCount n) := by
  unfold writeSmallCount
  dsimp only
  split_ifs
  · exact (keeps_throw _).bind fun _ => (onlyAppends_bytes _).bind fun _ => keeps_pure _
  · exact (onlyAppends_bytes _).bind fun _ => keeps_pure _

theorem onlyAppends_writeReference (refs : List Offset) : OnlyAppends (writeReference refs) := by
  cases refs with
  | nil => exact keeps_throw _
  | cons o rest => exact (onlyAppends_pointer o).bind fun _ => keeps_pure _

theorem onlyAppends_writeReferences (n : Nat) (refs : List Offset) :
    OnlyAppends (writeReferences n refs) := by
  induction n generalizing refs with
  | zero => exact keeps_pure _
  | succ n ih => exact (onlyAppends_writeReference refs).bind ih

theorem grows_writeReferences (n : Nat) (refs : List Offset) : Grows (writeReferences n refs) :=
  (onlyAppends_writeReferences n refs).grows

theorem TypeExpr.onlyAppends_writePayload (t : TypeExpr) (refs : List Offset) :
    OnlyAppends (t.writePayload refs) := by
  cases t with
  | scalar | indirect => exact keeps_pure _
  | named | object => exact onlyAppends_writeReference _
  | sized => exact (onlyAppends_bytes _).bind fun _ => keeps_pure _
  | callable => exact (onlyAppends_writeSmallCount _).bind fun _ => keeps_pure _
  | anonymous =>
    exact (onlyAppends_writeSmallCount _).bind fun _ => onlyAppends_writeReferences _ _

theorem TypeExpr.grows_writePayload (t : TypeExpr) (refs : List Offset) :
    Grows (t.writePayload refs) := (t.onlyAppends_writePayload refs).grows

theorem TypeExpr.onlyAppends_writeHead (t : TypeExpr) (refs : List Offset) :
    OnlyAppends (t.writeHead refs) :=
  (onlyAppends_bytes _).bind fun _ => t.onlyAppends_writePayload refs

theorem TypeExpr.grows_writeHead (t : TypeExpr) (refs : List Offset) : Grows (t.writeHead refs) :=
  (t.onlyAppends_writeHead refs).grows

theorem onlyAppends_writeNodes_of {ts : List TypeExpr}
    (each : ∀ t ∈ ts, ∀ refs, OnlyAppends (t.writeNode refs)) (refs : List Offset) :
    OnlyAppends (writeNodes ts refs) := by
  induction ts generalizing refs with
  | nil => exact keeps_pure _
  | cons t ts ih =>
    obtain ⟨first, others⟩ := List.forall_mem_cons.1 each
    exact (first refs).bind fun _ => ih others _

theorem TypeExpr.onlyAppends_writeNode (t : TypeExpr) (refs : List Offset) :
    OnlyAppends (t.writeNode refs) := by
  induction t using TypeExpr.induction generalizing refs with
  | node t ih =>
    rw [writeNode_eq]
    exact (t.onlyAppends_writeHead refs).bind fun _ => onlyAppends_writeNodes_of ih _

theorem TypeExpr.grows_writeNode (t : TypeExpr) (refs : List Offset) : Grows (t.writeNode refs) :=
  (t.onlyAppends_writeNode refs).grows

theorem onlyAppends_writeNodes (ts : List TypeExpr) (refs : List Offset) :
    OnlyAppends (writeNodes ts refs) :=
  onlyAppends_writeNodes_of (fun t _ => t.onlyAppends_writeNode) refs

theorem grows_writeNodes (ts : List TypeExpr) (refs : List Offset) : Grows (writeNodes ts refs) :=
  (onlyAppends_writeNodes ts refs).grows

section

variable {w w' : Writer} {refs left : List Offset} {t : TypeExpr}

theorem TypeExpr.returns_writeNode :
    Returns (t.writeNode refs) w left w' ↔ ∃ refs' u,
      Returns (t.writeHead refs) w refs' u ∧ Returns (writeNodes t.children refs') u left w' := by
  rw [writeNode_eq, returns_bind]

theorem TypeExpr.returns_writeHead :
    Returns (t.writeHead refs) w left w' ↔
      Returns (t.writePayload refs) (w.append [t.tag.byte]) left w' := by
  simp only [writeHead, returns_bind, returns_byte]
  constructor
  · rintro ⟨_, _, ⟨rfl, rfl⟩, payload⟩
    exact payload
  · exact fun payload => ⟨_, _, ⟨rfl, rfl⟩, payload⟩

/-! ### Lengths -/

theorem size_writeSmallCount {n : Nat} {u : Unit} (run : Returns (writeSmallCount n) w u w') :
    w'.heap.size = w.heap.size + 1 := by
  unfold writeSmallCount at run
  dsimp only at run
  split_ifs at run
  · simp at run
  · simp only [returns_bind, returns_byte, returns_pure] at run
    obtain ⟨_, _, ⟨rfl, rfl⟩, -, rfl⟩ := run
    simp

theorem size_writeReference (run : Returns (writeReference refs) w left w') :
    w'.heap.size = w.heap.size + w.format.pointerWidth := by
  cases refs with
  | nil => exact (returns_throw.1 run).elim
  | cons o rest =>
    simp only [writeReference, returns_bind, returns_pointer, returns_pure] at run
    obtain ⟨_, _, ⟨-, rfl, rfl⟩, -, rfl⟩ := run
    simp

theorem size_writeReferences {n : Nat} (run : Returns (writeReferences n refs) w left w') :
    w'.heap.size = w.heap.size + w.format.pointerWidth * n := by
  induction n generalizing refs w with
  | zero =>
    obtain ⟨-, rfl⟩ := returns_pure.1 run
    simp
  | succ n ih =>
    simp only [writeReferences, returns_bind] at run
    obtain ⟨refs', u, first, others⟩ := run
    have format := ((onlyAppends_writeReference refs).grows.of_returns first).format
    rw [ih others, size_writeReference first, format, Nat.mul_succ]
    omega

theorem TypeExpr.size_writePayload (run : Returns (t.writePayload refs) w left w') :
    w'.heap.size + 1 = w.heap.size + t.headSize w.format := by
  cases t with
  | scalar | indirect =>
    obtain ⟨-, rfl⟩ := returns_pure.1 run
    rfl
  | named | object =>
    rw [size_writeReference run, headSize]
    omega
  | sized =>
    simp only [writePayload, returns_bind, returns_uint32, returns_pure] at run
    obtain ⟨_, _, ⟨-, rfl⟩, -, rfl⟩ := run
    simp [headSize]
  | callable =>
    simp only [writePayload, returns_bind, returns_pure] at run
    obtain ⟨_, _, count, -, rfl⟩ := run
    rw [size_writeSmallCount count, headSize]
  | anonymous =>
    simp only [writePayload, returns_bind] at run
    obtain ⟨_, _, count, names⟩ := run
    have format := ((onlyAppends_writeSmallCount _).grows.of_returns count).format
    rw [size_writeReferences names, size_writeSmallCount count, headSize, format]
    omega

theorem TypeExpr.size_writeHead (run : Returns (t.writeHead refs) w left w') :
    w'.heap.size = w.heap.size + t.headSize w.format := by
  have size := size_writePayload (returns_writeHead.1 run)
  have tag : (w.append [t.tag.byte]).heap.size = w.heap.size + 1 := by simp
  have format : (w.append [t.tag.byte]).format = w.format := rfl
  rw [tag, format] at size
  omega

end

end DeclArchive
