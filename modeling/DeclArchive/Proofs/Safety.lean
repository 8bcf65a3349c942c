import DeclArchive.Proofs.Image
import DeclArchive.Stored.Read

/-!
# Reading any bytes

A reader may be given bytes that no writer made, and positions, counts and pointers from them. It may
then report an error, but it never applies an operation where that has no result: `Faultless` says so.
Most readers compute the position past what they read, so what keeps the next position in range is what
the read before it found: `Safe x q` adds that whatever `x` returns satisfies `q`. A reader that starts
in the image and succeeds ends in it (`readType_safe`, `Image.base_safe`, `Image.members_safe`).

The image fits one block of memory (`Image.Fits`). That results fit the memory that is left is no part
of these statements.
-/

namespace DeclArchive

variable {α β : Type}

/-! ## Computations without a fault -/

/-- The computation does not end in a fault. -/
def Faultless (x : Except Error α) : Prop := ∀ f, x ≠ .error (.fault f)

/-- The computation does not end in a fault, and what it returns satisfies `q`. -/
def Safe (x : Except Error α) (q : α → Prop) : Prop := Faultless x ∧ ∀ a, x = .ok a → q a

theorem Faultless.safe {x : Except Error α} (h : Faultless x) : Safe x fun _ => True :=
  ⟨h, fun _ _ => trivial⟩

theorem faultless_ok (a : α) : Faultless (.ok a) := by
  rintro f ⟨⟩

theorem faultless_malformed (o : Nat) (reason : Malformed) :
    Faultless (.error (.malformed o reason) : Except Error α) := by
  rintro f ⟨⟩

theorem safe_ok {q : α → Prop} {a : α} (h : q a) : Safe (.ok a) q := by
  refine ⟨faultless_ok a, ?_⟩
  rintro _ ⟨⟩
  exact h

theorem safe_malformed {q : α → Prop} (o : Nat) (reason : Malformed) :
    Safe (.error (.malformed o reason)) q := by
  refine ⟨faultless_malformed o reason, ?_⟩
  rintro a ⟨⟩

/-- What the first step is known to return is at hand in the second one. -/
theorem Safe.bind {x : Except Error α} {f : α → Except Error β} {p : α → Prop} {q : β → Prop}
    (hx : Safe x p) (hf : ∀ a, p a → Safe (f a) q) : Safe (x >>= f) q := by
  obtain ⟨sound, returns⟩ := hx
  cases x with
  | ok a => exact hf a (returns a rfl)
  | error e =>
    refine ⟨fun fault h => ?_, fun b h => (nomatch h)⟩
    cases h
    exact sound fault rfl

theorem Safe.bind_faultless {x : Except Error α} {f : α → Except Error β} {p : α → Prop}
    (hx : Safe x p) (hf : ∀ a, p a → Faultless (f a)) : Faultless (x >>= f) :=
  (hx.bind fun a ha => (hf a ha).safe).1

theorem Faultless.bind {x : Except Error α} {f : α → Except Error β} (hx : Faultless x)
    (hf : ∀ a, Faultless (f a)) : Faultless (x >>= f) :=
  hx.safe.bind_faultless fun a _ => hf a

theorem Faultless.mapM {f : α → Except Error β} (h : ∀ a, Faultless (f a)) (xs : List α) :
    Faultless (xs.mapM f) := by
  induction xs with
  | nil => exact faultless_ok []
  | cons x xs ih =>
    rw [List.mapM_cons]
    exact (h x).bind fun y => ih.bind fun ys => faultless_ok (y :: ys)

theorem Faultless.forM {f : α → Except Error PUnit} (h : ∀ a, Faultless (f a)) (xs : List α) :
    Faultless (xs.forM f) := by
  induction xs with
  | nil => exact faultless_ok _
  | cons x xs ih => exact (h x).bind fun _ => ih

namespace Image

variable {im : Image} {o : Nat}

/-! ## Numbers -/

theorem bytesAt_safe (im : Image) (o len : Nat) :
    Safe (im.bytesAt o len) fun raw => o + len ≤ im.size ∧ raw.length = len := by
  unfold bytesAt
  by_cases inside : o + len ≤ im.size
  · rw [if_pos inside]
    refine safe_ok ⟨inside, ?_⟩
    have size : o + len ≤ im.bytes.size := inside
    rw [Array.length_toList, Array.size_extract]
    omega
  · rw [if_neg inside]
    exact safe_malformed o _

theorem number_safe (im : Image) (o width : Nat) :
    Safe (im.number o width) fun _ => o + width ≤ im.size := by
  unfold number
  refine (im.bytesAt_safe o width).bind ?_
  rintro raw ⟨inside, -⟩
  exact safe_ok inside

theorem byte_safe (im : Image) (o : Nat) : Safe (im.byte o) fun _ => o + 1 ≤ im.size := by
  unfold byte
  exact (im.number_safe o 1).bind fun n inside => safe_ok inside

theorem uint16_safe (im : Image) (o : Nat) : Safe (im.uint16 o) fun _ => o + 2 ≤ im.size := by
  unfold uint16
  exact (im.number_safe o 2).bind fun n inside => safe_ok inside

theorem int16_safe (im : Image) (o : Nat) : Safe (im.int16 o) fun _ => o + 2 ≤ im.size := by
  unfold int16
  exact (im.uint16_safe o).bind fun n inside => safe_ok inside

theorem uint32_safe (im : Image) (o : Nat) : Safe (im.uint32 o) fun _ => o + 4 ≤ im.size := by
  unfold uint32
  exact (im.number_safe o 4).bind fun n inside => safe_ok inside

/-- A number of at most eight bytes is never too wide. -/
theorem uint_safe (im : Image) (o : Nat) {width : UInt8} (narrow : width.toNat ≤ 8) :
    Safe (im.uint o width) fun _ => o + width.toNat ≤ im.size := by
  unfold uint
  refine (im.bytesAt_safe o width.toNat).bind ?_
  rintro raw ⟨inside, length⟩
  have fits : ¬ 8 < raw.length := by omega
  rw [if_neg fits]
  exact safe_ok inside

theorem pointer_safe (im : Image) (o : Nat) :
    Safe (im.pointer o) fun _ => o + im.format.pointerWidth ≤ im.size :=
  im.uint_safe o im.format.pointerWidth_le

theorem count_safe (im : Image) (o : Nat) :
    Safe (im.count o) fun _ => o + im.format.countWidth ≤ im.size :=
  im.uint_safe o im.format.countWidth_le

/-! ## Positions -/

/-- A position at most eight bytes past the image can still be named. -/
theorem Fits.le_largestPosition (fits : im.Fits) {n : Nat} (h : n ≤ im.size + 8) :
    n ≤ largestPosition := by
  have size : im.size ≤ 0x7FFFFFFFFFFFFFFF := fits
  show n ≤ 0xFFFFFFFFFFFFFFFF
  omega

theorem positionAfter_safe (fits : im.Fits) {n : Nat} (h : o + n ≤ im.size + 8) :
    Safe (positionAfter o n) fun next => next = o + n := by
  unfold positionAfter
  rw [if_pos (fits.le_largestPosition h)]
  exact safe_ok rfl

theorem pastPointer_safe (fits : im.Fits) (h : o ≤ im.size) :
    Safe (im.pastPointer o) fun next => next = o + im.format.pointerWidth := by
  have width := im.format.pointerWidth_le
  exact positionAfter_safe fits (by omega)

/-! ## Parts -/

theorem tail_safe (h : o ≤ im.size) : Safe (im.tail o) fun rest => rest.size ≤ im.size := by
  unfold tail
  rw [if_neg (Nat.not_lt.2 h)]
  refine safe_ok ?_
  show (im.bytes.extract o im.bytes.size).size ≤ im.bytes.size
  rw [Array.size_extract]
  omega

/-! ## Texts -/

theorem untilZero_safe (h : o ≤ im.size) : Faultless (im.untilZero o) := by
  unfold untilZero
  rw [if_neg (Nat.not_lt.2 h)]
  exact faultless_ok _

theorem text_safe (im : Image) (o : Nat) : Faultless (im.text o) := by
  unfold text
  by_cases null : Offset.isNull o = true
  · rw [if_pos null]
    exact faultless_malformed 0 _
  · rw [if_neg null]
    refine (im.bytesAt_safe o 1).bind_faultless ?_
    rintro - ⟨inside, -⟩
    refine (untilZero_safe (Nat.le_of_succ_le inside)).bind ?_
    intro raw?
    rcases raw? with _ | raw
    · exact faultless_malformed o _
    · dsimp only
      rcases Utf8.decode raw with flaw | s
      · exact faultless_malformed o _
      · exact faultless_ok s

theorem text?_safe (im : Image) (o : Nat) : Faultless (im.text? o) := by
  unfold text?
  rcases Offset.present? o with _ | o
  · exact faultless_ok none
  · exact (im.text_safe o).bind fun s => faultless_ok (some s)

theorem texts_safe (im : Image) (os : List Offset) : Faultless (im.texts os) :=
  .mapM im.text_safe os

/-! ## Arrays -/

/-- A stored count may be any number; the reader stops at the first pointer that is not there. -/
theorem pointersFrom_safe (fits : im.Fits) (n o : Nat) (read : List Offset) :
    Faultless (im.pointersFrom n o read) := by
  induction n generalizing o read with
  | zero => exact faultless_ok _
  | succ n ih =>
    rw [pointersFrom]
    refine (im.pointer_safe o).bind_faultless ?_
    intro target here
    refine (pastPointer_safe fits (Nat.le_of_add_right_le here)).bind_faultless ?_
    intro next _
    exact ih next (target :: read)

theorem array_safe (fits : im.Fits) (o : Nat) : Faultless (im.array o) := by
  unfold array
  refine (im.count_safe o).bind_faultless ?_
  intro n here
  refine (positionAfter_safe fits (Nat.le_add_right_of_le here)).bind_faultless ?_
  intro first _
  exact pointersFrom_safe fits n first []

theorem arrayOrEmpty_safe (fits : im.Fits) (o : Nat) : Faultless (im.arrayOrEmpty o) := by
  unfold arrayOrEmpty
  rcases Offset.present? o with _ | o
  · exact faultless_ok []
  · exact array_safe fits o

end Image

/-! ## Types -/

section

variable {im : Image}

/-- The position past what was read is still in the image, or at its end. -/
def EndsIn (im : Image) (r : α × Offset) : Prop := r.2 ≤ im.size

theorem readMany_safe {step : Offset → Except Error (α × Offset)}
    (h : ∀ o, Safe (step o) (EndsIn im)) (n : Nat) {o : Nat} (start : o ≤ im.size)
    (read : List α) : Safe (readMany step n o read) (EndsIn im) := by
  induction n generalizing o read with
  | zero => exact safe_ok start
  | succ n ih =>
    rw [readMany]
    refine (h o).bind ?_
    rintro ⟨x, next⟩ inside
    exact ih inside (x :: read)

variable (fits : im.Fits)

include fits

theorem readName_safe (o : Nat) : Safe (readName im o) (EndsIn im) := by
  unfold readName
  refine (im.pointer_safe o).bind ?_
  intro target here
  refine (im.text_safe target).safe.bind ?_
  intro name _
  refine (Image.pastPointer_safe fits (Nat.le_of_add_right_le here)).bind ?_
  rintro _ rfl
  exact safe_ok here

theorem readProtocolNames_safe (o : Nat) : Safe (readProtocolNames im o) (EndsIn im) := by
  unfold readProtocolNames
  refine (im.pointer_safe o).bind ?_
  intro target here
  refine (Image.arrayOrEmpty_safe fits target).safe.bind ?_
  intro names _
  refine (Image.pastPointer_safe fits (Nat.le_of_add_right_le here)).bind ?_
  rintro _ rfl
  exact (im.texts_safe names).safe.bind fun texts _ => safe_ok here

theorem readSmallCount_safe (o : Nat) : Safe (readSmallCount im o) (EndsIn im) := by
  unfold readSmallCount
  refine (im.byte_safe o).bind ?_
  intro n here
  refine (Image.positionAfter_safe fits (Nat.le_add_right_of_le here)).bind ?_
  rintro _ rfl
  exact safe_ok here

/-- Every level of a type ends in the image, so the next one starts there. -/
theorem readTypeWithin_safe (levels o : Nat) : Safe (readTypeWithin im levels o) (EndsIn im) := by
  -- the levels below are read at positions that the bytes choose, so `o` is any position
  induction levels generalizing o with
  | zero => exact safe_malformed o _
  | succ levels ih =>
    rw [readTypeWithin]
    refine (im.byte_safe o).bind ?_
    intro b here
    rcases Tag.ofByte? b with _ | tag
    · exact safe_malformed o _
    dsimp only
    refine (Image.positionAfter_safe fits (Nat.le_add_right_of_le here)).bind ?_
    rintro _ rfl
    rcases tag with kind | kind | kind | kind | kind | kind | kind
    case scalar => exact safe_ok here
    case named =>
      refine (readName_safe fits (o + 1)).bind ?_
      rintro ⟨name, next⟩ inside
      exact safe_ok inside
    case object =>
      refine (readProtocolNames_safe fits (o + 1)).bind ?_
      rintro ⟨protocols, next⟩ inside
      exact safe_ok inside
    case indirect =>
      refine (ih (o + 1)).bind ?_
      rintro ⟨target, next⟩ inside
      exact safe_ok inside
    case sized =>
      refine (im.uint32_safe (o + 1)).bind ?_
      intro size there
      refine (Image.positionAfter_safe fits (Nat.le_add_right_of_le there)).bind ?_
      rintro _ rfl
      refine (ih (o + 1 + 4)).bind ?_
      rintro ⟨element, next⟩ inside
      exact safe_ok inside
    case callable =>
      refine (readSmallCount_safe fits (o + 1)).bind ?_
      rintro ⟨n, first⟩ start
      refine (readMany_safe ih n start []).bind ?_
      rintro ⟨signature, next⟩ inside
      exact safe_ok inside
    case anonymous =>
      refine (readSmallCount_safe fits (o + 1)).bind ?_
      rintro ⟨n, first⟩ start
      refine (readMany_safe (readName_safe fits) n start []).bind ?_
      rintro ⟨names, first⟩ start
      refine (readMany_safe ih n start []).bind ?_
      rintro ⟨types, next⟩ inside
      exact safe_ok inside

theorem readType_safe (o : Nat) : Safe (readType im o) (EndsIn im) :=
  readTypeWithin_safe fits deepestType o

theorem readSignature_safe (o : Nat) : Faultless (readSignature im o) := by
  unfold readSignature
  refine (im.count_safe o).bind_faultless ?_
  intro n here
  refine (Image.positionAfter_safe fits (Nat.le_add_right_of_le here)).bind_faultless ?_
  rintro _ rfl
  exact (readMany_safe (readType_safe fits) n here []).bind_faultless fun r _ => faultless_ok r.1

end

/-! ## Records -/

namespace Image

variable {im : Image} (fits : im.Fits)

include fits

/-- If the names are read, the byte after the first pointer is there. -/
theorem names_safe (record : Nat) :
    Safe (im.names record) fun _ => record + im.format.pointerWidth + 1 ≤ im.size := by
  unfold names
  refine (im.pointer_safe record).bind ?_
  intro target here
  refine (pastPointer_safe fits (Nat.le_of_add_right_le here)).bind ?_
  rintro _ rfl
  refine (im.byte_safe _).bind ?_
  intro flags inside
  by_cases two : FlagByte.has flags FlagByte.distinctName = true
  · rw [if_pos two]
    refine (im.pointer_safe target).bind ?_
    intro shownAt first
    refine (im.text_safe shownAt).safe.bind ?_
    intro shown _
    refine (pastPointer_safe fits (Nat.le_of_add_right_le first)).bind ?_
    intro next _
    refine (im.pointer_safe next).bind ?_
    intro nameAt _
    exact (im.text_safe nameAt).safe.bind fun name _ => safe_ok inside
  · rw [if_neg two]
    exact (im.text_safe target).safe.bind fun name _ => safe_ok inside

theorem base_safe (record : Nat) : Safe (im.base record) (EndsIn im) := by
  unfold base
  refine (names_safe fits record).bind ?_
  rintro ⟨publicName, name⟩ flagThere
  have start : record ≤ im.size := by omega
  refine (pastPointer_safe fits start).bind ?_
  rintro _ rfl
  refine (im.byte_safe _).bind ?_
  intro flagByte _
  refine (positionAfter_safe fits (Nat.le_add_right_of_le flagThere)).bind ?_
  rintro _ rfl
  refine (im.uint16_safe _).bind ?_
  intro moduleIndex moduleThere
  refine (positionAfter_safe fits (Nat.le_add_right_of_le moduleThere)).bind ?_
  rintro _ rfl
  refine (im.byte_safe _).bind ?_
  intro version versionThere
  refine (positionAfter_safe fits (Nat.le_add_right_of_le versionThere)).bind ?_
  rintro _ rfl
  exact safe_ok versionThere

theorem method_safe (record : Nat) : Faultless (im.method record) := by
  unfold method
  refine (base_safe fits record).bind_faultless ?_
  rintro ⟨base, o⟩ inside
  refine (im.pointer_safe o).bind_faultless ?_
  intro signatureAt _
  refine (readSignature_safe fits signatureAt).bind ?_
  intro signature
  refine (pastPointer_safe fits inside).bind_faultless ?_
  intro next _
  refine (im.pointer_safe next).bind_faultless ?_
  intro encodingAt _
  exact (im.text?_safe encodingAt).bind fun encoding? => faultless_ok _

theorem accessor_safe (record : Nat) : Faultless (im.accessor record) := by
  unfold accessor
  rcases Offset.present? record with _ | record
  · exact faultless_ok none
  · exact (method_safe fits record).bind fun m => faultless_ok (some m)

theorem property_safe (record : Nat) : Faultless (im.property record) := by
  unfold property
  refine (base_safe fits record).bind_faultless ?_
  rintro ⟨base, o⟩ inside
  refine (im.pointer_safe o).bind_faultless ?_
  intro getter _
  refine (pastPointer_safe fits inside).bind_faultless ?_
  intro next _
  refine (im.pointer_safe next).bind_faultless ?_
  intro setter _
  refine (accessor_safe fits getter).bind ?_
  intro getter?
  exact (accessor_safe fits setter).bind fun setter? => faultless_ok _

/-- The position moves on before the pointer is looked at, so it may leave the image, by less than one
pointer. If the pointer is there, it has not left. -/
theorem nextPointer_safe {o : Nat} (start : o ≤ im.size) :
    Safe (im.nextPointer o) (EndsIn im) := by
  unfold nextPointer
  refine (pastPointer_safe fits start).bind ?_
  rintro _ rfl
  exact (im.pointer_safe o).bind fun target inside => safe_ok inside

theorem members_safe {o : Nat} (start : o ≤ im.size) : Safe (im.members o) (EndsIn im) := by
  unfold members
  refine (nextPointer_safe fits start).bind ?_
  rintro ⟨instanceMethods, o⟩ start
  refine (nextPointer_safe fits start).bind ?_
  rintro ⟨staticMethods, o⟩ start
  refine (nextPointer_safe fits start).bind ?_
  rintro ⟨properties, o⟩ start
  refine (nextPointer_safe fits start).bind ?_
  rintro ⟨protocols, o⟩ start
  -- what the four pointers lead to may be anywhere; the last number is read behind the pointers
  refine (arrayOrEmpty_safe fits instanceMethods).safe.bind ?_
  intro records _
  refine (Faultless.mapM (method_safe fits) records).safe.bind ?_
  intro instanceMethods _
  refine (arrayOrEmpty_safe fits staticMethods).safe.bind ?_
  intro records _
  refine (Faultless.mapM (method_safe fits) records).safe.bind ?_
  intro staticMethods _
  refine (arrayOrEmpty_safe fits properties).safe.bind ?_
  intro records _
  refine (Faultless.mapM (property_safe fits) records).safe.bind ?_
  intro properties _
  refine (arrayOrEmpty_safe fits protocols).safe.bind ?_
  intro names _
  refine (im.texts_safe names).safe.bind ?_
  intro protocols _
  refine (im.int16_safe o).bind ?_
  intro firstInitializer inside
  refine (positionAfter_safe fits (Nat.le_add_right_of_le inside)).bind ?_
  rintro _ rfl
  exact safe_ok inside

theorem signatureOrEmpty_safe (o : Nat) : Faultless (im.signatureOrEmpty o) := by
  unfold signatureOrEmpty
  rcases Offset.present? o with _ | o
  · exact faultless_ok []
  · exact readSignature_safe fits o

theorem fields_safe (o : Nat) : Faultless (im.fields o) := by
  unfold fields
  refine (im.pointer_safe o).bind_faultless ?_
  intro namesAt here
  refine (pastPointer_safe fits (Nat.le_of_add_right_le here)).bind_faultless ?_
  intro next _
  refine (im.pointer_safe next).bind_faultless ?_
  intro typesAt _
  refine (arrayOrEmpty_safe fits namesAt).bind ?_
  intro names
  refine (signatureOrEmpty_safe fits typesAt).bind ?_
  intro types
  by_cases differ : names.length ≠ types.length
  · rw [if_pos differ]
    exact faultless_malformed o _
  · rw [if_neg differ]
    exact (im.texts_safe names).bind fun texts => faultless_ok _

theorem body_safe (record : Nat) {o : Nat} (start : o ≤ im.size) (tag : RecordTag) :
    Faultless (im.body record o tag) := by
  unfold body
  cases tag with
  | undefined => exact faultless_malformed record _
  | function =>
    refine (im.pointer_safe o).bind_faultless ?_
    intro target _
    exact (readSignature_safe fits target).bind fun signature => faultless_ok _
  | var =>
    refine (im.pointer_safe o).bind_faultless ?_
    intro target _
    exact (readType_safe fits target).bind_faultless fun r _ => faultless_ok _
  | jsCode =>
    refine (im.pointer_safe o).bind_faultless ?_
    intro target _
    exact (im.text_safe target).bind fun text => faultless_ok _
  | struct => exact (fields_safe fits o).bind fun fields => faultless_ok _
  | union => exact (fields_safe fits o).bind fun fields => faultless_ok _
  | protocol => exact (members_safe fits start).bind_faultless fun r _ => faultless_ok _
  | interface =>
    refine (members_safe fits start).bind_faultless ?_
    rintro ⟨members, o⟩ _
    refine (im.pointer_safe o).bind_faultless ?_
    intro target _
    exact (im.text?_safe target).bind fun base? => faultless_ok _

end Image

end DeclArchive
