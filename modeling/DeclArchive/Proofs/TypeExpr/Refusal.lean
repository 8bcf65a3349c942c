import DeclArchive.Proofs.Reaches
import DeclArchive.Proofs.TypeExpr.Node

/-!
# What is refused of a type

A type is refused if it, or a type in it, holds more types or fields than one byte counts
(`TypeExpr.tooMany?`). As long as every list of protocols has a count, nothing else can stop the writing
of a type but an offset that is out of reach (`TypeExpr.reaches_write`): the first pass writes the parts
one after another (`TypeExpr.writeParts_eq`) and leaves an offset for each, and those are the offsets
that the second pass takes.
-/

namespace DeclArchive

open Write

/-! ## Counts of one byte -/

/-- How many types or fields a type holds, where one byte counts them. -/
def TypeExpr.elements? : TypeExpr → Option Nat
  | .callable _ signature => some signature.length
  | .anonymous _ fields => some fields.length
  | _ => none

/-- The refusal of a count that has one byte. -/
def tooMany? (n : Nat) : Option Error := if 255 < n then some (.countOverflow n 1) else none

/-- The refusal of a type that holds too much, whatever is in what it holds. -/
def TypeExpr.tooMany? (t : TypeExpr) : Option Error := t.elements?.bind DeclArchive.tooMany?

/-- The first refusal of one of these types or of a type in them. -/
def refusalOfTypes? (ts : List TypeExpr) : Option Error :=
  (subtypesOfTypes ts).findSome? TypeExpr.tooMany?

/-! ## The first pass -/

section

variable {w : Writer}

theorem Part.reaches_write {p : Part} (few : p.texts.length ≤ w.format.largestCount) :
    Reaches none Inside p.write w := by
  cases p with
  | name s => exact reaches_text s w
  | protocols ss =>
    refine (reaches_texts ss w).none_bind fun os w' grew here => ?_
    exact reaches_arrayOrNull here (by rw [grew.format]; exact few)

theorem reaches_writeParts {parts : List Part}
    (few : ∀ p ∈ parts, p.texts.length ≤ w.format.largestCount) :
    Reaches none (AllInside parts.length) (parts.mapM Part.write) w :=
  reaches_mapM fun p hp w' grew => Part.reaches_write (by rw [grew.format]; exact few p hp)

end

/-! ## The second pass -/

/-- There are offsets for `n` parts, all inside the heap. -/
structure Enough (n : Nat) (refs : List Offset) (w : Writer) : Prop where
  length : n ≤ refs.length
  inside : ∀ o ∈ refs, Inside o w

namespace Enough

variable {n m : Nat} {refs : List Offset} {w w' : Writer}

theorem later (h : Enough n refs w) (kept : w.Kept w') : Enough n refs w' :=
  ⟨h.length, fun o ho => (h.inside o ho).later kept⟩

theorem front (h : Enough (n + m) refs w) : Enough n refs w :=
  ⟨(Nat.le_add_right n m).trans h.length, h.inside⟩

theorem drop (h : Enough (n + m) refs w) : Enough m (refs.drop n) w where
  length := by
    have := h.length
    rw [List.length_drop]
    omega
  inside o ho := h.inside o (List.mem_of_mem_drop ho)

end Enough

theorem Write.AllInside.enough {n : Nat} {refs : List Offset} {w : Writer} (h : AllInside n refs w) :
    Enough n refs w := ⟨h.length.ge, h.inside⟩

/-- The references are taken from the front, one for each part. -/
def Takes (n : Nat) (refs rest : List Offset) (_ : Writer) : Prop := rest = refs.drop n

section

variable {refs : List Offset} {w : Writer}

theorem reaches_writeSmallCount (n : Nat) (w : Writer) :
    Reaches (tooMany? n) (fun _ _ => True) (writeSmallCount n) w := by
  unfold writeSmallCount tooMany?
  split_ifs
  · exact reaches_throw_bind _ _
  · exact (reaches_bytes _ w).none_bind fun _ _ _ _ => reaches_pure trivial

theorem reaches_writeReference (h : Enough 1 refs w) :
    Reaches none (Takes 1 refs) (writeReference refs) w := by
  cases refs with
  | nil => exact absurd h.length (by decide)
  | cons o rest =>
    exact (reaches_pointer (h.inside o List.mem_cons_self)).none_bind fun _ _ _ _ => reaches_pure rfl

theorem reaches_writeReferences {n : Nat} (h : Enough n refs w) :
    Reaches none (Takes n refs) (writeReferences n refs) w := by
  induction n generalizing refs w with
  | zero => exact reaches_pure rfl
  | succ n ih =>
    have h : Enough (1 + n) refs w := Nat.add_comm n 1 ▸ h
    refine (reaches_writeReference h.front).none_bind fun rest w₁ grew taken => ?_
    rw [taken]
    refine (ih (h.drop.later grew.kept)).imp fun _ _ taken => ?_
    exact taken.trans (List.drop_drop.trans (congrArg (refs.drop ·) (Nat.add_comm 1 n)))

theorem TypeExpr.reaches_writePayload {t : TypeExpr} (h : Enough t.ownParts.length refs w) :
    Reaches t.tooMany? (Takes t.ownParts.length refs) (t.writePayload refs) w := by
  cases t with
  | scalar | indirect => exact reaches_pure rfl
  | named | object => exact reaches_writeReference h
  | sized => exact (reaches_bytes _ w).none_bind fun _ _ _ _ => reaches_pure rfl
  | callable _ signature =>
    exact (reaches_writeSmallCount signature.length w).bind_none fun _ _ _ _ => reaches_pure rfl
  | anonymous _ fields =>
    rw [ownParts, List.length_map] at h ⊢
    exact (reaches_writeSmallCount fields.length w).bind_none fun _ _ grew _ =>
      reaches_writeReferences (h.later grew.kept)

theorem reaches_writeNodes {ts : List TypeExpr}
    (each : ∀ t ∈ ts, ∀ {refs : List Offset} {w : Writer}, Enough t.parts.length refs w →
      Reaches (t.subtypes.findSome? TypeExpr.tooMany?) (Takes t.parts.length refs)
        (t.writeNode refs) w)
    (h : Enough (partsOfTypes ts).length refs w) :
    Reaches (refusalOfTypes? ts) (Takes (partsOfTypes ts).length refs) (writeNodes ts refs) w := by
  unfold refusalOfTypes?
  induction ts generalizing refs w with
  | nil => exact reaches_pure rfl
  | cons t ts ih =>
    obtain ⟨first, others⟩ := List.forall_mem_cons.1 each
    rw [partsOfTypes, List.length_append] at h ⊢
    rw [subtypesOfTypes, List.findSome?_append]
    refine (first h.front).bind fun rest w₁ grew taken => ?_
    rw [taken]
    refine (ih others (h.drop.later grew.kept)).imp fun _ _ taken => ?_
    exact taken.trans List.drop_drop

/-- The second pass takes an offset for each part, unless it is refused. -/
theorem TypeExpr.reaches_writeNode {t : TypeExpr} (h : Enough t.parts.length refs w) :
    Reaches (t.subtypes.findSome? TypeExpr.tooMany?) (Takes t.parts.length refs)
      (t.writeNode refs) w := by
  induction t using TypeExpr.induction generalizing refs w with
  | node t ih =>
    rw [parts_eq, List.length_append] at h ⊢
    rw [subtypes_eq, findSome?_cons_eq_or, writeNode_eq]
    refine Reaches.bind (P := Takes t.ownParts.length refs) ?_ fun rest w₁ grew taken => ?_
    · exact (reaches_bytes _ w).none_bind fun _ _ grew _ =>
        reaches_writePayload (h.front.later grew.kept)
    rw [taken]
    refine (reaches_writeNodes ih (h.drop.later grew.kept)).imp fun _ _ taken => ?_
    exact taken.trans List.drop_drop

end

/-! ## Types and signatures -/

section

variable {w : Writer}

/-- A type is refused, or it is written, or an offset is out of reach. -/
theorem TypeExpr.reaches_write {t : TypeExpr}
    (few : ∀ p ∈ t.parts, p.texts.length ≤ w.format.largestCount) :
    Reaches (t.subtypes.findSome? TypeExpr.tooMany?) Inside t.write w := by
  unfold TypeExpr.write
  rw [writeParts_eq]
  refine (reaches_writeParts few).none_bind fun refs w₁ _ here => ?_
  refine (reaches_position w₁).none_bind fun start w₂ grew starts => ?_
  refine (reaches_writeNode (here.later grew.kept).enough).bind_none fun _ _ grew' _ => ?_
  exact reaches_pure (starts.later grew'.kept)

theorem reaches_writeSignature {ts : List TypeExpr}
    (few : ∀ p ∈ partsOfTypes ts, p.texts.length ≤ w.format.largestCount)
    (short : ts.length ≤ w.format.largestCount) :
    Reaches (refusalOfTypes? ts) Inside (writeSignature ts) w := by
  unfold writeSignature
  rw [writePartsOfTypes_eq fun t _ => t.writeParts_eq]
  refine (reaches_writeParts few).none_bind fun refs w₁ grew here => ?_
  refine (reaches_count (by rw [grew.format]; exact short)).none_bind fun start w₂ grew₂ starts => ?_
  refine (reaches_writeNodes (fun t _ => TypeExpr.reaches_writeNode)
    (here.later grew₂.kept).enough).bind_none fun _ _ grew' _ => ?_
  exact reaches_pure (starts.later grew'.kept)

end

end DeclArchive
