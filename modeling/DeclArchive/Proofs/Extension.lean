import DeclArchive.Proofs.Runs
import DeclArchive.Stored.Read

/-!
# Reading longer bytes

Bytes that are put behind an image can make readable what was not, and change nothing else.
`Image.Begins im longer` says that `longer` is `im` with bytes behind it, and `Persists x y` that `y` is
the answer `x`, unless `x` is that the bytes cannot be read. Every reader keeps this relation
(`readType_persists`, `Image.base_persists`, `Image.body_persists`), because each read looks at bytes
that are there in both images, or reports that they are missing.
-/

namespace DeclArchive

variable {α β : Type}

/-! ## Answers that persist -/

/-- The second answer is the first one, unless the first one is that the bytes cannot be read. -/
def Persists (x y : Except Error α) : Prop :=
  x = y ∨ ∃ o reason, x = .error (.malformed o reason)

theorem Persists.rfl {x : Except Error α} : Persists x x := .inl (Eq.refl x)

theorem persists_malformed (o : Nat) (reason : Malformed) (y : Except Error α) :
    Persists (.error (.malformed o reason)) y := .inr ⟨o, reason, Eq.refl _⟩

/-- What was returned is returned again. -/
theorem Persists.eq_ok {x y : Except Error α} {a : α} (h : Persists x y) (ok : x = .ok a) :
    y = .ok a := by
  obtain rfl | ⟨o, reason, error⟩ := h
  · exact ok
  · rw [ok] at error
    cases error

theorem Persists.bind {x y : Except Error α} {f g : α → Except Error β} (hx : Persists x y)
    (hf : ∀ a, Persists (f a) (g a)) : Persists (x >>= f) (y >>= g) := by
  obtain rfl | ⟨o, reason, rfl⟩ := hx
  · cases x with
    | ok a => exact hf a
    | error e => exact .rfl
  · exact persists_malformed o reason _

/-- What only depends on the first answer persists with it. -/
theorem Persists.and_then {x y : Except Error α} (h : Persists x y) (f : α → Except Error β) :
    Persists (x >>= f) (y >>= f) := h.bind fun _ => .rfl

theorem Persists.mapM {f g : α → Except Error β} (h : ∀ a, Persists (f a) (g a)) (xs : List α) :
    Persists (xs.mapM f) (xs.mapM g) := by
  induction xs with
  | nil => exact .rfl
  | cons x xs ih =>
    rw [List.mapM_cons, List.mapM_cons]
    exact (h x).bind fun y => ih.and_then _

theorem Persists.forM {f g : α → Except Error PUnit} (h : ∀ a, Persists (f a) (g a))
    (xs : List α) : Persists (xs.forM f) (xs.forM g) := by
  induction xs with
  | nil => exact .rfl
  | cons x xs ih => exact (h x).bind fun _ => ih

namespace Image

variable {im longer : Image}

/-- The longer image is the first one with bytes behind it, read with the same widths. -/
structure Begins (im longer : Image) : Prop where
  format : longer.format = im.format
  bytes : im.bytes.toList <+: longer.bytes.toList

variable (begins : im.Begins longer)

include begins

/-! ## Bytes -/

theorem Begins.size_le : im.size ≤ longer.size := by
  simpa [size] using begins.bytes.length_le

theorem Begins.extract_eq {o stop : Nat} (inside : stop ≤ im.size) :
    longer.bytes.extract o stop = im.bytes.extract o stop := by
  obtain ⟨behind, whole⟩ := begins.bytes
  apply Array.toList_inj.1
  simp only [Array.toList_extract, List.extract, ← whole]
  have inside : stop ≤ im.bytes.toList.length := by rwa [Array.length_toList]
  by_cases order : o ≤ stop
  · rw [List.drop_append_of_le_length (Nat.le_trans order inside),
      List.take_append_of_le_length (by rw [List.length_drop]; omega)]
  · rw [Nat.sub_eq_zero_of_le (Nat.le_of_not_le order), List.take_zero, List.take_zero]

theorem Begins.getElem?_eq {o : Nat} (inside : o < im.size) :
    longer.bytes[o]? = im.bytes[o]? := by
  obtain ⟨behind, whole⟩ := begins.bytes
  rw [← Array.getElem?_toList, ← whole, List.getElem?_append_left, Array.getElem?_toList]
  rwa [Array.length_toList]

theorem bytesAt_persists (o len : Nat) : Persists (im.bytesAt o len) (longer.bytesAt o len) := by
  unfold bytesAt
  by_cases inside : o + len ≤ im.size
  · rw [if_pos inside, if_pos (Nat.le_trans inside begins.size_le), begins.extract_eq inside]
    exact .rfl
  · rw [if_neg inside]
    exact persists_malformed o _ _

/-! ## Numbers -/

theorem number_persists (o width : Nat) : Persists (im.number o width) (longer.number o width) :=
  (bytesAt_persists begins o width).and_then _

theorem byte_persists (o : Nat) : Persists (im.byte o) (longer.byte o) :=
  (number_persists begins o 1).and_then _

theorem uint16_persists (o : Nat) : Persists (im.uint16 o) (longer.uint16 o) :=
  (number_persists begins o 2).and_then _

theorem int16_persists (o : Nat) : Persists (im.int16 o) (longer.int16 o) :=
  (uint16_persists begins o).and_then _

theorem uint32_persists (o : Nat) : Persists (im.uint32 o) (longer.uint32 o) :=
  (number_persists begins o 4).and_then _

theorem uint_persists (o : Nat) (width : UInt8) :
    Persists (im.uint o width) (longer.uint o width) :=
  (bytesAt_persists begins o width.toNat).and_then _

theorem pointer_persists (o : Nat) : Persists (im.pointer o) (longer.pointer o) := by
  unfold pointer
  rw [begins.format]
  exact uint_persists begins o _

theorem count_persists (o : Nat) : Persists (im.count o) (longer.count o) := by
  unfold count
  rw [begins.format]
  exact uint_persists begins o _

/-- Positions depend on the widths alone. -/
theorem pastPointer_persists (o : Nat) : Persists (im.pastPointer o) (longer.pastPointer o) := by
  rw [pastPointer, pastPointer, begins.format]
  exact .rfl

/-! ## Texts -/

/-- A zero that ends a text is still the first one when bytes come behind it. -/
theorem Begins.scan_eq {fuel o : Nat} {read raw : List UInt8} (more : Nat)
    (found : im.scan fuel o read = some raw) : longer.scan (fuel + more) o read = some raw := by
  induction fuel generalizing o read with
  | zero => cases found
  | succ fuel ih =>
    rw [scan] at found
    rw [Nat.add_right_comm, scan]
    cases here : im.bytes[o]? with
    | none =>
      rw [here] at found
      cases found
    | some b =>
      rw [begins.getElem?_eq (Array.getElem?_eq_some_iff.1 here).1, here]
      rw [here] at found
      dsimp only at found ⊢
      by_cases zero : b = 0
      · rwa [if_pos zero] at found ⊢
      · rw [if_neg zero] at found ⊢
        exact ih found

theorem Begins.untilZero_eq {o : Nat} {raw : List UInt8}
    (found : im.untilZero o = .ok (some raw)) : longer.untilZero o = .ok (some raw) := by
  have size := begins.size_le
  unfold untilZero at found ⊢
  by_cases past : im.size < o
  · rw [if_pos past] at found
    cases found
  · rw [if_neg past] at found
    have more := begins.scan_eq (longer.size - im.size) (Except.ok.inj found)
    rw [if_neg (by omega), show longer.size - o = im.size - o + (longer.size - im.size) by omega, more]

theorem text_persists (o : Nat) : Persists (im.text o) (longer.text o) := by
  unfold text
  by_cases null : Offset.isNull o = true
  · rw [if_pos null, if_pos null]
    exact .rfl
  rw [if_neg null, if_neg null]
  -- the first byte is there, so the search for a zero starts in the image
  by_cases inside : o + 1 ≤ im.size
  · have here : im.bytesAt o 1 = .ok (im.bytes.extract o (o + 1)).toList := if_pos inside
    rw [(bytesAt_persists begins o 1).eq_ok here, here, Except.ok_bind, Except.ok_bind]
    have start : im.untilZero o = .ok (im.scan (im.size - o) o []) := if_neg (by omega)
    cases scanned : im.scan (im.size - o) o [] with
    | none =>
      rw [start, scanned]
      exact persists_malformed o _ _
    | some raw =>
      rw [scanned] at start
      rw [begins.untilZero_eq start, start]
      exact .rfl
  · have missing : im.bytesAt o 1 = .error (.malformed o (.tooFewBytes 1 im.size)) := if_neg inside
    rw [missing]
    exact persists_malformed o _ _

theorem text?_persists (o : Nat) : Persists (im.text? o) (longer.text? o) := by
  unfold text?
  rcases Offset.present? o with _ | o
  · exact .rfl
  · exact (text_persists begins o).and_then _

theorem texts_persists (os : List Offset) : Persists (im.texts os) (longer.texts os) :=
  .mapM (text_persists begins) os

/-! ## Arrays -/

theorem pointersFrom_persists (n o : Nat) (read : List Offset) :
    Persists (im.pointersFrom n o read) (longer.pointersFrom n o read) := by
  induction n generalizing o read with
  | zero => exact .rfl
  | succ n ih =>
    rw [pointersFrom, pointersFrom]
    refine (pointer_persists begins o).bind fun target => ?_
    exact (pastPointer_persists begins o).bind fun next => ih next (target :: read)

theorem array_persists (o : Nat) : Persists (im.array o) (longer.array o) := by
  unfold array
  rw [begins.format]
  refine (count_persists begins o).bind fun n => ?_
  exact Persists.rfl.bind fun first => pointersFrom_persists begins n first []

theorem arrayOrEmpty_persists (o : Nat) : Persists (im.arrayOrEmpty o) (longer.arrayOrEmpty o) := by
  unfold arrayOrEmpty
  rcases Offset.present? o with _ | o
  · exact .rfl
  · exact array_persists begins o

end Image

/-! ## Types -/

theorem readMany_persists {step step' : Offset → Except Error (α × Offset)}
    (h : ∀ o, Persists (step o) (step' o)) (n o : Nat) (read : List α) :
    Persists (readMany step n o read) (readMany step' n o read) := by
  induction n generalizing o read with
  | zero => exact .rfl
  | succ n ih =>
    rw [readMany, readMany]
    exact (h o).bind fun r => ih r.2 (r.1 :: read)

section

variable {im longer : Image} (begins : im.Begins longer)

include begins

theorem readName_persists (o : Nat) : Persists (readName im o) (readName longer o) := by
  unfold readName
  refine (Image.pointer_persists begins o).bind fun target => ?_
  refine (Image.text_persists begins target).bind fun name => ?_
  exact (Image.pastPointer_persists begins o).and_then _

theorem readProtocolNames_persists (o : Nat) :
    Persists (readProtocolNames im o) (readProtocolNames longer o) := by
  unfold readProtocolNames
  refine (Image.pointer_persists begins o).bind fun target => ?_
  refine (Image.arrayOrEmpty_persists begins target).bind fun names => ?_
  refine (Image.pastPointer_persists begins o).bind fun next => ?_
  exact (Image.texts_persists begins names).and_then _

theorem readSmallCount_persists (o : Nat) :
    Persists (readSmallCount im o) (readSmallCount longer o) :=
  (Image.byte_persists begins o).and_then _

theorem readTypeWithin_persists (levels o : Nat) :
    Persists (readTypeWithin im levels o) (readTypeWithin longer levels o) := by
  induction levels generalizing o with
  | zero => exact .rfl
  | succ levels ih =>
    rw [readTypeWithin, readTypeWithin]
    refine (Image.byte_persists begins o).bind fun b => ?_
    rcases Tag.ofByte? b with _ | tag
    · exact .rfl
    refine Persists.rfl.bind fun o => ?_
    rcases tag with kind | kind | kind | kind | kind | kind | kind
    case scalar => exact .rfl
    case named => exact (readName_persists begins o).and_then _
    case object => exact (readProtocolNames_persists begins o).and_then _
    case indirect => exact (ih o).and_then _
    case sized =>
      refine (Image.uint32_persists begins o).bind fun size => ?_
      exact Persists.rfl.bind fun next => (ih next).and_then _
    case callable =>
      refine (readSmallCount_persists begins o).bind fun count => ?_
      exact (readMany_persists ih count.1 count.2 []).and_then _
    case anonymous =>
      refine (readSmallCount_persists begins o).bind fun count => ?_
      refine (readMany_persists (readName_persists begins) count.1 count.2 []).bind fun names => ?_
      exact (readMany_persists ih count.1 names.2 []).and_then _

theorem readType_persists (o : Nat) : Persists (readType im o) (readType longer o) :=
  readTypeWithin_persists begins deepestType o

theorem readSignature_persists (o : Nat) :
    Persists (readSignature im o) (readSignature longer o) := by
  unfold readSignature
  rw [begins.format]
  refine (Image.count_persists begins o).bind fun n => ?_
  exact Persists.rfl.bind fun first => (readMany_persists (readType_persists begins) n first []).and_then _

end

/-! ## Records -/

namespace Image

variable {im longer : Image} (begins : im.Begins longer)

include begins

theorem names_persists (record : Nat) : Persists (im.names record) (longer.names record) := by
  unfold names
  refine (pointer_persists begins record).bind fun target => ?_
  refine (pastPointer_persists begins record).bind fun o => ?_
  refine (byte_persists begins o).bind fun flags => ?_
  by_cases two : FlagByte.has flags FlagByte.distinctName = true
  · rw [if_pos two, if_pos two]
    refine (pointer_persists begins target).bind fun shownAt => ?_
    refine (text_persists begins shownAt).bind fun shown => ?_
    refine (pastPointer_persists begins target).bind fun next => ?_
    refine (pointer_persists begins next).bind fun nameAt => ?_
    exact (text_persists begins nameAt).and_then _
  · rw [if_neg two, if_neg two]
    exact (text_persists begins target).and_then _

theorem base_persists (record : Nat) : Persists (im.base record) (longer.base record) := by
  unfold base
  refine (names_persists begins record).bind fun both => ?_
  refine (pastPointer_persists begins record).bind fun o => ?_
  refine (byte_persists begins o).bind fun flagByte => ?_
  refine Persists.rfl.bind fun moduleAt => ?_
  refine (uint16_persists begins moduleAt).bind fun moduleIndex => ?_
  refine Persists.rfl.bind fun versionAt => ?_
  exact (byte_persists begins versionAt).and_then _

theorem method_persists (record : Nat) : Persists (im.method record) (longer.method record) := by
  unfold method
  refine (base_persists begins record).bind fun r => ?_
  refine (pointer_persists begins r.2).bind fun signatureAt => ?_
  refine (readSignature_persists begins signatureAt).bind fun signature => ?_
  refine (pastPointer_persists begins r.2).bind fun next => ?_
  refine (pointer_persists begins next).bind fun encodingAt => ?_
  exact (text?_persists begins encodingAt).and_then _

theorem accessor_persists (record : Nat) : Persists (im.accessor record) (longer.accessor record) := by
  unfold accessor
  rcases Offset.present? record with _ | record
  · exact .rfl
  · exact (method_persists begins record).and_then _

theorem property_persists (record : Nat) : Persists (im.property record) (longer.property record) := by
  unfold property
  refine (base_persists begins record).bind fun r => ?_
  refine (pointer_persists begins r.2).bind fun getter => ?_
  refine (pastPointer_persists begins r.2).bind fun next => ?_
  refine (pointer_persists begins next).bind fun setter => ?_
  refine (accessor_persists begins getter).bind fun getter? => ?_
  exact (accessor_persists begins setter).and_then _

theorem nextPointer_persists (o : Nat) : Persists (im.nextPointer o) (longer.nextPointer o) := by
  unfold nextPointer
  refine (pastPointer_persists begins o).bind fun next => ?_
  exact (pointer_persists begins o).and_then _

theorem members_persists (o : Nat) : Persists (im.members o) (longer.members o) := by
  unfold members
  refine (nextPointer_persists begins o).bind fun instanceMethods => ?_
  refine (nextPointer_persists begins instanceMethods.2).bind fun staticMethods => ?_
  refine (nextPointer_persists begins staticMethods.2).bind fun properties => ?_
  refine (nextPointer_persists begins properties.2).bind fun protocols => ?_
  refine (arrayOrEmpty_persists begins instanceMethods.1).bind fun records => ?_
  refine (Persists.mapM (method_persists begins) records).bind fun instanceMethods => ?_
  refine (arrayOrEmpty_persists begins staticMethods.1).bind fun records => ?_
  refine (Persists.mapM (method_persists begins) records).bind fun staticMethods => ?_
  refine (arrayOrEmpty_persists begins properties.1).bind fun records => ?_
  refine (Persists.mapM (property_persists begins) records).bind fun properties => ?_
  refine (arrayOrEmpty_persists begins protocols.1).bind fun names => ?_
  refine (texts_persists begins names).bind fun texts => ?_
  exact (int16_persists begins protocols.2).and_then _

theorem signatureOrEmpty_persists (o : Nat) :
    Persists (im.signatureOrEmpty o) (longer.signatureOrEmpty o) := by
  unfold signatureOrEmpty
  rcases Offset.present? o with _ | o
  · exact .rfl
  · exact readSignature_persists begins o

theorem fields_persists (o : Nat) : Persists (im.fields o) (longer.fields o) := by
  unfold fields
  refine (pointer_persists begins o).bind fun namesAt => ?_
  refine (pastPointer_persists begins o).bind fun next => ?_
  refine (pointer_persists begins next).bind fun typesAt => ?_
  refine (arrayOrEmpty_persists begins namesAt).bind fun names => ?_
  refine (signatureOrEmpty_persists begins typesAt).bind fun types => ?_
  by_cases differ : names.length ≠ types.length
  · rw [if_pos differ, if_pos differ]
    exact .rfl
  · rw [if_neg differ, if_neg differ]
    exact (texts_persists begins names).and_then _

theorem body_persists (record o : Nat) (tag : RecordTag) :
    Persists (im.body record o tag) (longer.body record o tag) := by
  unfold body
  cases tag with
  | undefined => exact .rfl
  | function =>
    refine (pointer_persists begins o).bind fun target => ?_
    exact (readSignature_persists begins target).and_then _
  | var =>
    refine (pointer_persists begins o).bind fun target => ?_
    exact (readType_persists begins target).and_then _
  | jsCode =>
    refine (pointer_persists begins o).bind fun target => ?_
    exact (text_persists begins target).and_then _
  | struct => exact (fields_persists begins o).and_then _
  | union => exact (fields_persists begins o).and_then _
  | protocol => exact (members_persists begins o).and_then _
  | interface =>
    refine (members_persists begins o).bind fun r => ?_
    refine (pointer_persists begins r.2).bind fun target => ?_
    exact (text?_persists begins target).and_then _

end Image

end DeclArchive
