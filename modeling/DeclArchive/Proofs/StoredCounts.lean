import DeclArchive.Proofs.Image.Text
import DeclArchive.Proofs.TypeExpr.Found
import Mathlib.Algebra.Group.Nat.Defs

/-!
# Stored counts

Bytes of any origin may hold any count, and less behind it than it says. A reader takes the count as it is and
goes round once for each value. What keeps it from running on is that each value that is there takes a byte or
more (`Strides`): it meets the end of the bytes before it has gone round more often than there are bytes.

`countRounds` and `countedRounds` are the loop and the read around it with their rounds counted. They end as
`readMany` and `readCounted` do.

1. A read that is free of faults fails with nothing but malformed bytes (`FailsOnly.isMalformed`).
2. A loop whose steps have a stride goes round at most once more than there are bytes (`countRounds_run`).
3. So a read of as many values as a count says returns all of them, or reports malformed bytes, as it does
   wherever the bytes cannot hold so many (`Strides.countedRead`).
4. Arrays and signatures are such reads, and each node of a type takes a byte (`stored_counts_bounded`).
-/

namespace DeclArchive

variable {α β : Type}

/-! ## What a read fails with -/

/-- Where the read fails, its error is one of these. -/
def FailsOnly (E : Error → Prop) (x : Except Error α) : Prop := ∀ e, x = .error e → E e

/-- The error is that bytes cannot be read. -/
def Error.IsMalformed (e : Error) : Prop := ∃ place reason, e = .malformed place reason

/-- The error is that bytes cannot be read, or a fault. -/
def Error.IsOfReading : Error → Prop
  | .malformed _ _ | .fault _ => True
  | _ => False

section

variable {E : Error → Prop} {x : Except Error α}

theorem failsOnly_ok (a : α) : FailsOnly E (.ok a) := nofun

theorem failsOnly_error {e : Error} (h : E e) : FailsOnly E (.error e : Except Error α) := by
  rintro _ ⟨⟩
  exact h

theorem FailsOnly.bind {f : α → Except Error β} (hx : FailsOnly E x) (hf : ∀ a, FailsOnly E (f a)) :
    FailsOnly E (x >>= f) := by
  cases x with
  | ok a => exact hf a
  | error e => exact failsOnly_error (hx e rfl)

theorem FailsOnly.mapM {f : α → Except Error β} (h : ∀ a, FailsOnly E (f a)) (xs : List α) :
    FailsOnly E (xs.mapM f) := by
  induction xs with
  | nil => exact failsOnly_ok []
  | cons x xs ih =>
    rw [List.mapM_cons]
    exact (h x).bind fun y => ih.bind fun ys => failsOnly_ok (y :: ys)

theorem FailsOnly.readMany {step : Offset → Except Error (α × Offset)}
    (h : ∀ o, FailsOnly E (step o)) (n : Nat) (o : Offset) (read : List α) :
    FailsOnly E (readMany step n o read) := by
  induction n generalizing o read with
  | zero => exact failsOnly_ok _
  | succ n ih =>
    rw [DeclArchive.readMany]
    exact (h o).bind fun r => ih r.2 (r.1 :: read)

/-- A read without faults fails with nothing but malformed bytes. -/
theorem FailsOnly.isMalformed (h : FailsOnly Error.IsOfReading x) (sound : Faultless x) :
    FailsOnly Error.IsMalformed x := by
  intro e failed
  have reading := h e failed
  cases e with
  | malformed place reason => exact ⟨place, reason, rfl⟩
  | fault f => exact (sound f failed).elim
  | _ => exact reading.elim

end

/-! ### Readers -/

theorem positionAfter_fails (o n : Nat) : FailsOnly Error.IsOfReading (positionAfter o n) := by
  unfold positionAfter
  split_ifs
  · exact failsOnly_ok _
  · exact failsOnly_error trivial

namespace Image

variable (im : Image) (o : Nat)

theorem bytesAt_fails (len : Nat) : FailsOnly Error.IsOfReading (im.bytesAt o len) := by
  unfold bytesAt
  split_ifs
  · exact failsOnly_ok _
  · exact failsOnly_error trivial

theorem number_fails (width : Nat) : FailsOnly Error.IsOfReading (im.number o width) :=
  (im.bytesAt_fails o width).bind fun _ => failsOnly_ok _

theorem byte_fails : FailsOnly Error.IsOfReading (im.byte o) :=
  (im.number_fails o 1).bind fun _ => failsOnly_ok _

theorem uint32_fails : FailsOnly Error.IsOfReading (im.uint32 o) :=
  (im.number_fails o 4).bind fun _ => failsOnly_ok _

theorem uint_fails (width : UInt8) : FailsOnly Error.IsOfReading (im.uint o width) := by
  refine (im.bytesAt_fails o width.toNat).bind fun raw => ?_
  split_ifs
  · exact failsOnly_error trivial
  · exact failsOnly_ok _

theorem pointer_fails : FailsOnly Error.IsOfReading (im.pointer o) := im.uint_fails o _

theorem count_fails : FailsOnly Error.IsOfReading (im.count o) := im.uint_fails o _

theorem pastPointer_fails : FailsOnly Error.IsOfReading (im.pastPointer o) := positionAfter_fails o _

theorem text_fails : FailsOnly Error.IsOfReading (im.text o) := by
  obtain ⟨s, read⟩ | ⟨reason, none⟩ := im.reads_or_noText o
  · rw [read]
    exact failsOnly_ok s
  · rw [text_of_noText none]
    exact failsOnly_error trivial

theorem readPointer_fails : FailsOnly Error.IsOfReading (im.readPointer o) :=
  (im.pointer_fails o).bind fun _ => (im.pastPointer_fails o).bind fun _ => failsOnly_ok _

end Image

section

variable (im : Image)

theorem readCounted_fails {step : Offset → Except Error (α × Offset)}
    (h : ∀ o, FailsOnly Error.IsOfReading (step o)) (o : Offset) :
    FailsOnly Error.IsOfReading (readCounted im step o) :=
  (im.count_fails o).bind fun n => (positionAfter_fails o _).bind fun first =>
    (FailsOnly.readMany h n first []).bind fun _ => failsOnly_ok _

theorem Image.arrayOrEmpty_fails (o : Offset) : FailsOnly Error.IsOfReading (im.arrayOrEmpty o) := by
  unfold Image.arrayOrEmpty
  rcases Offset.present? o with _ | o
  · exact failsOnly_ok []
  · dsimp only
    rw [im.array_eq]
    exact readCounted_fails im im.readPointer_fails o

theorem readName_fails (o : Offset) : FailsOnly Error.IsOfReading (readName im o) :=
  (im.pointer_fails o).bind fun target => (im.text_fails target).bind fun _ =>
    (im.pastPointer_fails o).bind fun _ => failsOnly_ok _

theorem readProtocolNames_fails (o : Offset) : FailsOnly Error.IsOfReading (readProtocolNames im o) :=
  (im.pointer_fails o).bind fun target => (im.arrayOrEmpty_fails target).bind fun names =>
    (im.pastPointer_fails o).bind fun _ => (FailsOnly.mapM im.text_fails names).bind fun _ =>
      failsOnly_ok _

theorem readSmallCount_fails (o : Offset) : FailsOnly Error.IsOfReading (readSmallCount im o) :=
  (im.byte_fails o).bind fun _ => (positionAfter_fails o 1).bind fun _ => failsOnly_ok _

theorem readTypeWithin_fails (levels : Nat) (o : Offset) :
    FailsOnly Error.IsOfReading (readTypeWithin im levels o) := by
  -- along the program; where the levels below are read does not matter
  induction levels generalizing o with
  | zero => exact failsOnly_error trivial
  | succ levels ih =>
    rw [readTypeWithin]
    refine (im.byte_fails o).bind fun b => ?_
    rcases Tag.ofByte? b with _ | tag
    · exact failsOnly_error trivial
    dsimp only
    refine (positionAfter_fails o 1).bind fun o => ?_
    rcases tag with kind | kind | kind | kind | kind | kind | kind
    case scalar => exact failsOnly_ok _
    case named => exact (readName_fails im o).bind fun _ => failsOnly_ok _
    case object => exact (readProtocolNames_fails im o).bind fun _ => failsOnly_ok _
    case indirect => exact (ih o).bind fun _ => failsOnly_ok _
    case sized =>
      exact (im.uint32_fails o).bind fun _ => (positionAfter_fails o 4).bind fun o =>
        (ih o).bind fun _ => failsOnly_ok _
    case callable =>
      exact (readSmallCount_fails im o).bind fun count =>
        (FailsOnly.readMany ih _ _ _).bind fun _ => failsOnly_ok _
    case anonymous =>
      exact (readSmallCount_fails im o).bind fun count =>
        (FailsOnly.readMany (readName_fails im) _ _ _).bind fun _ =>
          (FailsOnly.readMany ih _ _ _).bind fun _ => failsOnly_ok _

end

/-! ## Rounds -/

/-- Reads that count the rounds they go. -/
abbrev Rounds (α : Type) := ExceptT Error (StateM Nat) α

/-- Reads as `readMany` does, and counts a round for each step. -/
def countRounds (step : Offset → Except Error (α × Offset)) :
    (n : Nat) → Offset → (read : List α) → Rounds (List α × Offset)
  | 0, o, read => return (read.reverse, o)
  | n + 1, o, read => do
    modify (· + 1)
    let (x, next) ← step o
    countRounds step n next (x :: read)

/-- Reads as `readCounted` does, and counts the rounds. -/
def countedRounds (im : Image) (step : Offset → Except Error (α × Offset)) (o : Offset) :
    Rounds (List α) := do
  let n ← im.count o
  let first ← positionAfter o im.format.countWidth
  return (← countRounds step n first []).1

/-- The read that counts ends with this result, after so many rounds at most. -/
def EndsWithin (bound : Nat) (x : Rounds α) (result : Except Error α) : Prop :=
  ∃ rounds ≤ bound, x.run.run 0 = (result, rounds)

section

variable {im : Image} {unit : Nat} {step : Offset → Except Error (α × Offset)}

/-- Each round but the last one goes on by a byte or more, and the bytes end somewhere. -/
theorem countRounds_run (strides : Strides im unit step) (pos : 0 < unit) (n o : Nat) (read : List α)
    (before : Nat) :
    ∃ rounds ≤ im.size - o + 1,
      (countRounds step n o read).run.run before = (readMany step n o read, before + rounds) := by
  -- on the count; a round is counted before its step, so the rounds before are any number
  induction n generalizing o read before with
  | zero => exact ⟨0, Nat.zero_le _, rfl⟩
  | succ n ih =>
    rcases first : step o with e | ⟨x, next⟩
    · refine ⟨1, Nat.le_add_left _ _, ?_⟩
      rw [countRounds, readMany, first]
      rfl
    · obtain ⟨on, inside⟩ := strides first
      obtain ⟨rounds, few, rest⟩ := ih next (x :: read) (before + 1)
      refine ⟨rounds + 1, by omega, ?_⟩
      rw [countRounds, readMany, first, Except.ok_bind, Nat.add_comm rounds, ← Nat.add_assoc, ← rest]
      rfl

theorem Strides.endsWithin (strides : Strides im unit step) (pos : 0 < unit) (n o : Nat) :
    EndsWithin (im.size + 1) (countRounds step n o []) (readMany step n o []) := by
  obtain ⟨rounds, few, run⟩ := countRounds_run strides pos n o [] 0
  rw [Nat.zero_add] at run
  exact ⟨rounds, by omega, run⟩

theorem countedRounds_run (strides : Strides im unit step) (pos : 0 < unit) (o : Offset) :
    EndsWithin (im.size + 1) (countedRounds im step o) (readCounted im step o) := by
  unfold countedRounds readCounted
  rcases im.count o with e | n
  · exact ⟨0, Nat.zero_le _, rfl⟩
  rcases positionAfter o im.format.countWidth with e | first
  · exact ⟨0, Nat.zero_le _, rfl⟩
  obtain ⟨rounds, few, run⟩ := strides.endsWithin pos n first
  refine ⟨rounds, few, ?_⟩
  show (countRounds step n first [] >>= fun r => pure r.1).run.run 0 =
    (readMany step n first [] >>= fun r => .ok r.1, rounds)
  rw [run_bind, run]
  rcases readMany step n first [] with e | r <;> rfl

end

/-! ## Counts -/

namespace Image

variable {im : Image} {o : Nat}

/-- The number in the bytes of the count at `o`. -/
def storedCount (im : Image) (o : Offset) : Nat :=
  LittleEndian.decode (im.bytes.extract o (o + im.format.countWidth)).toList

theorem uint_of_inside {width : UInt8} (narrow : width.toNat ≤ 8) (inside : o + width.toNat ≤ im.size) :
    im.uint o width =
      .ok (LittleEndian.decode (im.bytes.extract o (o + width.toNat)).toList) := by
  have raw : im.bytesAt o width.toNat = .ok (im.bytes.extract o (o + width.toNat)).toList :=
    if_pos inside
  have length := ((im.bytesAt_safe o width.toNat).2 _ raw).2
  have fits : ¬ 8 < (im.bytes.extract o (o + width.toNat)).toList.length := by omega
  rw [uint, raw, Except.ok_bind, if_neg fits]
  rfl

theorem count_eq_ok {n : Nat} :
    im.count o = .ok n ↔ o + im.format.countWidth ≤ im.size ∧ n = im.storedCount o := by
  constructor
  · intro count
    have inside := (im.count_safe o).2 n count
    have stored := uint_of_inside im.format.countWidth_le inside
    exact ⟨inside, Except.ok.inj (count.symm.trans stored)⟩
  · rintro ⟨inside, rfl⟩
    exact uint_of_inside im.format.countWidth_le inside

theorem readPointer_of_inside (fits : im.Fits) (inside : o + im.format.pointerWidth ≤ im.size) :
    ∃ target, im.readPointer o = .ok (target, o + im.format.pointerWidth) := by
  have stored := uint_of_inside im.format.pointerWidth_le inside
  refine ⟨LittleEndian.decode (im.bytes.extract o (o + im.format.pointerWidth)).toList, ?_⟩
  rw [readPointer, pointer, stored, Except.ok_bind, pastPointer_of_le fits inside]
  rfl

end Image

section

variable {im : Image} {unit : Nat} {step : Offset → Except Error (α × Offset)}

/-- Steps that find what they look for wherever the bytes have room for it read as many values as there is
room for. -/
theorem readMany_of_room (each : ∀ o : Nat, o + unit ≤ im.size → ∃ x, step o = .ok (x, o + unit))
    {n o : Nat} (room : o + unit * n ≤ im.size) (read : List α) :
    ∃ r, readMany step n o read = .ok r := by
  induction n generalizing o read with
  | zero => exact ⟨_, rfl⟩
  | succ n ih =>
    rw [Nat.mul_succ] at room
    obtain ⟨x, first⟩ := each o (by omega)
    rw [readMany, first]
    exact ih (by omega) (x :: read)

/-- A read of as many values as the count at `o` says, each of which takes so many bytes or more. -/
structure CountedRead (im : Image) (unit : Nat) (step : Offset → Except Error (α × Offset)) (o : Offset)
    (result : Except Error (List α)) : Prop where
  values : ∀ xs, result = .ok xs → xs.length = im.storedCount o ∧
    o + im.format.countWidth + unit * xs.length ≤ im.size
  fails : FailsOnly Error.IsMalformed result
  tooMany : im.size < o + im.format.countWidth + unit * im.storedCount o →
    ∃ e, result = .error e ∧ e.IsMalformed
  rounds : EndsWithin (im.size + 1) (countedRounds im step o) result

theorem Strides.countedRead (strides : Strides im unit step) (pos : 0 < unit)
    (each : ∀ o, FailsOnly Error.IsOfReading (step o)) {o : Nat}
    (sound : Faultless (readCounted im step o)) :
    CountedRead im unit step o (readCounted im step o) := by
  have values : ∀ xs, readCounted im step o = .ok xs → xs.length = im.storedCount o ∧
      o + im.format.countWidth + unit * xs.length ≤ im.size := by
    intro xs read
    obtain ⟨count, room⟩ := readCounted_eq_ok strides read
    exact ⟨(Image.count_eq_ok.1 count).2, room⟩
  have fails := (readCounted_fails im each o).isMalformed sound
  refine ⟨values, fails, fun tooMany => ?_, countedRounds_run strides pos o⟩
  rcases read : readCounted im step o with e | xs
  · exact ⟨e, rfl, fails e read⟩
  · obtain ⟨length, room⟩ := values xs read
    rw [length] at room
    omega

end

/-! ## Arrays and types -/

section

variable {im : Image}

theorem strides_readName (im : Image) : Strides im im.format.pointerWidth (readName im) := by
  intro o next name read
  obtain ⟨rfl, inside, -⟩ := readName_eq_ok read
  exact ⟨Nat.le_refl _, inside⟩

/-- A type is in the image, and no smaller than its nodes. -/
theorem readTypeWithin_eq_ok {levels o next : Nat} {t : TypeExpr}
    (read : readTypeWithin im levels o = .ok (t, next)) : o + t.nodes ≤ next ∧ next ≤ im.size := by
  have found := readTypeWithin_found read
  rw [found.size]
  exact ⟨Nat.add_le_add_left (t.nodes_le_runSize _) o, found.size ▸ found.inside⟩

theorem strides_readTypeWithin (im : Image) (levels : Nat) : Strides im 1 (readTypeWithin im levels) := by
  intro o next t read
  obtain ⟨room, inside⟩ := readTypeWithin_eq_ok read
  exact ⟨(Nat.add_le_add_left t.nodes_pos o).trans room, inside⟩

theorem array_returns_iff (fits : im.Fits) (o : Nat) :
    (∃ os, im.array o = .ok os) ↔ o + im.format.countWidth ≤ im.size ∧
      o + im.format.countWidth + im.storedCount o * im.format.pointerWidth ≤ im.size := by
  constructor
  · rintro ⟨os, array⟩
    obtain ⟨count, room⟩ := Image.array_eq_ok array
    obtain ⟨inside, length⟩ := Image.count_eq_ok.1 count
    rw [length, Nat.mul_comm] at room
    exact ⟨inside, room⟩
  · rintro ⟨inside, room⟩
    have count := Image.count_eq_ok.2 ⟨inside, rfl⟩
    rw [Nat.mul_comm] at room
    obtain ⟨⟨os, last⟩, read⟩ := readMany_of_room (fun _ => Image.readPointer_of_inside fits) room []
    refine ⟨os, ?_⟩
    rw [im.array_eq, readCounted, count, Except.ok_bind, Image.positionAfter_of_le fits inside,
      Except.ok_bind, read]
    rfl

/-- **Reads over a stored count are bounded by the bytes**, whatever the count is and wherever it is. An array is
read just where its count and as many pointers are in the bytes. A type that is read ends in the bytes and takes
a byte for each of its nodes, and a signature takes a byte for each of its types. Everywhere else the bytes are
reported as malformed, so a count is that the bytes behind it cannot hold; and no loop over a count, be it in an
array, a signature or a type, goes round more than once more than there are bytes. -/
theorem stored_counts_bounded (small : im.size < 2 ^ 63) (o : Nat) :
    ((∃ os, im.array o = .ok os) ↔ o + im.format.countWidth ≤ im.size ∧
        o + im.format.countWidth + im.storedCount o * im.format.pointerWidth ≤ im.size) ∧
      CountedRead im im.format.pointerWidth im.readPointer o (im.array o) ∧
      (∀ (t : TypeExpr) (next : Nat), readType im o = .ok (t, next) →
        o < next ∧ next ≤ im.size ∧ t.nodes ≤ next - o) ∧
      FailsOnly Error.IsMalformed (readType im o) ∧
      CountedRead im 1 (readType im) o (readSignature im o) ∧
      (∀ levels n first, EndsWithin (im.size + 1) (countRounds (readTypeWithin im levels) n first [])
        (readMany (readTypeWithin im levels) n first [])) ∧
      ∀ n first, EndsWithin (im.size + 1) (countRounds (readName im) n first [])
        (readMany (readName im) n first []) := by
  have fits : im.Fits := Nat.le_sub_one_of_lt small
  have pointers := im.format.pointerWidth_pos
  refine ⟨array_returns_iff fits o, ?_, fun t next read => ?_, ?_, ?_, fun levels n first => ?_,
    fun n first => ?_⟩
  · rw [im.array_eq]
    exact im.strides_readPointer.countedRead pointers im.readPointer_fails
      (im.array_eq o ▸ Image.array_safe fits o)
  · obtain ⟨room, inside⟩ := readTypeWithin_eq_ok read
    have node := t.nodes_pos
    omega
  · exact (readTypeWithin_fails im deepestType o).isMalformed (readType_safe fits o).1
  · exact (strides_readTypeWithin im deepestType).countedRead Nat.one_pos
      (readTypeWithin_fails im deepestType) (readSignature_safe fits o)
  · exact (strides_readTypeWithin im levels).endsWithin Nat.one_pos n first
  · exact (strides_readName im).endsWithin pointers n first

end

namespace Sample

/-- A count of eight bytes that announces more types than there can be, and two types behind it. -/
def hugeCount : Image :=
  ⟨#[0, 255, 255, 255, 255, 255, 255, 255, 255, 1, 1], ⟨⟨1, 8⟩, by decide⟩⟩

theorem readSignature_hugeCount :
    readSignature hugeCount 1 = .error (.malformed 11 (.tooFewBytes 1 11)) := rfl

end Sample

/-- The largest count there is comes to nothing at the first byte that is missing. -/
theorem stored_counts_bounded_hugeCount :
    Sample.hugeCount.size < 2 ^ 63 ∧ Sample.hugeCount.storedCount 1 = 2 ^ 64 - 1 ∧
      (∃ e, readSignature Sample.hugeCount 1 = .error e ∧ e.IsMalformed) ∧
      EndsWithin 12 (countedRounds Sample.hugeCount (readType Sample.hugeCount) 1)
        (.error (.malformed 11 (.tooFewBytes 1 11))) := by
  have small : Sample.hugeCount.size < 2 ^ 63 := by decide
  have count : Sample.hugeCount.storedCount 1 = 2 ^ 64 - 1 := by decide
  obtain ⟨-, -, -, -, signature, -⟩ := stored_counts_bounded small 1
  have tooMany : Sample.hugeCount.size < 1 + 8 + 1 * Sample.hugeCount.storedCount 1 := by
    rw [count]
    decide
  exact ⟨small, count, signature.tooMany tooMany, Sample.readSignature_hugeCount ▸ signature.rounds⟩

end DeclArchive
