import DeclArchive.Proofs.Found
import DeclArchive.Proofs.TypeExpr.Refusal

/-!
# What a type that was read is like

Bytes that no writer made may still be read as a type. It is as high as the reader had levels at most, its
run has the length of its shape and is in the image, every count in it has one byte, and its names and
protocols were read from the image (`readTypeWithin_found`).
-/

namespace DeclArchive

/-! ## Parts -/

/-- The part was read from the image, wherever it is there. -/
def Part.Found (im : Image) : Part → Prop
  | .name s => ∃ o, im.text o = .ok s
  | .protocols ss => ∃ o os, im.arrayOrEmpty o = .ok os ∧ im.texts os = .ok ss

theorem Format.one_le_largestCount (f : Format) : 1 ≤ f.largestCount := by
  refine f.le_largestCount (Nat.one_lt_pow f.countWidth_pos.ne' (by decide))

namespace Part.Found

variable {im : Image} {p : Part}

/-- Each text of the part was read somewhere. -/
theorem texts (h : p.Found im) : ∀ s ∈ p.texts, ∃ o, im.text o = .ok s := by
  cases p with
  | name s => exact List.forall_mem_singleton.2 h
  | protocols ss =>
    obtain ⟨-, os, -, texts⟩ := h
    intro s hs
    obtain ⟨o, -, text⟩ := exists_left_of_forall₂ (Except.forall₂_of_mapM texts) hs
    exact ⟨o, text⟩

/-- Protocols were read from an array of as many pointers, which has room in the image. -/
theorem array {ss : List String} (h : (Part.protocols ss).Found im) :
    ss = [] ∨ ss.length ≤ im.format.largestCount ∧
      im.format.countWidth + im.format.pointerWidth * ss.length ≤ im.size := by
  obtain ⟨o, os, array, texts⟩ := h
  have length := (Except.forall₂_of_mapM texts).length_eq
  unfold Image.arrayOrEmpty Offset.present? at array
  split_ifs at array
  · cases array
    exact .inl (List.length_eq_zero_iff.1 length.symm)
  · obtain ⟨count, room⟩ := Image.array_eq_ok array
    rw [← length]
    exact .inr ⟨Image.count_le count, (Nat.add_le_add_right (Nat.le_add_left _ _) _).trans room⟩

theorem length_le (h : p.Found im) : p.texts.length ≤ im.format.largestCount := by
  cases p with
  | name s => exact im.format.one_le_largestCount
  | protocols ss =>
    rcases h.array with rfl | ⟨few, -⟩
    · exact Nat.zero_le _
    · exact few

end Part.Found

/-! ## Nodes -/

section

variable {im : Image} {o next : Nat}

theorem readName_eq_ok {s : String} (h : readName im o = .ok (s, next)) :
    next = o + im.format.pointerWidth ∧ next ≤ im.size ∧ (Part.name s).Found im := by
  unfold readName at h
  obtain ⟨target, pointer, h⟩ := Except.bind_eq_ok.1 h
  obtain ⟨name, text, h⟩ := Except.bind_eq_ok.1 h
  obtain ⟨past, after, h⟩ := Except.bind_eq_ok.1 h
  cases h
  obtain rfl := positionAfter_eq_ok after
  exact ⟨rfl, (im.pointer_safe o).2 target pointer, target, text⟩

theorem readProtocolNames_eq_ok {ss : List String} (h : readProtocolNames im o = .ok (ss, next)) :
    next = o + im.format.pointerWidth ∧ next ≤ im.size ∧ (Part.protocols ss).Found im := by
  unfold readProtocolNames at h
  obtain ⟨target, pointer, h⟩ := Except.bind_eq_ok.1 h
  obtain ⟨os, array, h⟩ := Except.bind_eq_ok.1 h
  obtain ⟨past, after, h⟩ := Except.bind_eq_ok.1 h
  obtain ⟨names, texts, h⟩ := Except.bind_eq_ok.1 h
  cases h
  obtain rfl := positionAfter_eq_ok after
  exact ⟨rfl, (im.pointer_safe o).2 target pointer, target, os, array, texts⟩

theorem readSmallCount_eq_ok {n : Nat} (h : readSmallCount im o = .ok (n, next)) :
    next = o + 1 ∧ next ≤ im.size ∧ tooMany? n = none := by
  unfold readSmallCount at h
  obtain ⟨b, byte, h⟩ := Except.bind_eq_ok.1 h
  obtain ⟨past, after, h⟩ := Except.bind_eq_ok.1 h
  cases h
  obtain rfl := positionAfter_eq_ok after
  have small := b.toNat_lt
  exact ⟨rfl, (im.byte_safe o).2 b byte, if_neg (by omega)⟩

/-- Names in a row take one pointer each. -/
theorem inARow_readName {names : List String} {last : Nat} (start : o ≤ im.size)
    (row : InARow (readName im) o names last) :
    last = o + im.format.pointerWidth * names.length ∧ last ≤ im.size ∧
      ∀ s ∈ names, (Part.name s).Found im := by
  induction names generalizing o with
  | nil =>
    cases row
    exact ⟨rfl, start, nofun⟩
  | cons s names ih =>
    obtain ⟨next, first, rest⟩ := row
    obtain ⟨rfl, inside, found⟩ := readName_eq_ok first
    obtain ⟨rfl, inside, others⟩ := ih inside rest
    refine ⟨?_, inside, List.forall_mem_cons.2 ⟨found, others⟩⟩
    rw [List.length_cons, Nat.mul_succ]
    omega

/-- Fields that were put together from names and types have these names and types. -/
theorem map_zipWith_fields {names : List String} {types : List TypeExpr}
    (length : types.length = names.length) :
    (names.zipWith Field.mk types).map Field.name = names ∧
      (names.zipWith Field.mk types).map Field.type = types := by
  induction names generalizing types with
  | nil => exact ⟨rfl, (List.length_eq_zero_iff.1 length).symm⟩
  | cons s names ih =>
    cases types with
    | nil => cases length
    | cons t types =>
      obtain ⟨ofNames, ofTypes⟩ := ih (Nat.succ.inj length)
      exact ⟨congrArg (s :: ·) ofNames, congrArg (t :: ·) ofTypes⟩

/-- The bytes of the node at `o` are in the image, and the children were read in a row behind them. -/
structure TypeExpr.HeadFound (im : Image) (levels : Nat) (o : Offset) (t : TypeExpr) (next : Offset) :
    Prop where
  inside : o + t.headSize im.format ≤ im.size
  parts : ∀ p ∈ t.ownParts, p.Found im
  few : t.tooMany? = none
  below : InARow (readTypeWithin im levels) (o + t.headSize im.format) t.children next

theorem readTypeWithin_head {levels : Nat} {t : TypeExpr}
    (h : readTypeWithin im (levels + 1) o = .ok (t, next)) : t.HeadFound im levels o next := by
  rw [readTypeWithin] at h
  obtain ⟨b, byte, h⟩ := Except.bind_eq_ok.1 h
  have here := (im.byte_safe o).2 b byte
  rcases tagged : Tag.ofByte? b with _ | tag
  · rw [tagged] at h
    cases h
  rw [tagged] at h
  obtain ⟨past, after, h⟩ := Except.bind_eq_ok.1 h
  obtain rfl := positionAfter_eq_ok after
  rcases tag with kind | kind | kind | kind | kind | kind | kind
  case scalar =>
    cases h
    exact ⟨here, List.forall_mem_nil _, rfl, rfl⟩
  case named =>
    obtain ⟨⟨name, past⟩, read, h⟩ := Except.bind_eq_ok.1 h
    cases h
    obtain ⟨rfl, inside, found⟩ := readName_eq_ok read
    exact ⟨by rwa [TypeExpr.headSize, ← Nat.add_assoc], List.forall_mem_singleton.2 found, rfl,
      (Nat.add_assoc ..).symm⟩
  case object =>
    obtain ⟨⟨protocols, past⟩, read, h⟩ := Except.bind_eq_ok.1 h
    cases h
    obtain ⟨rfl, inside, found⟩ := readProtocolNames_eq_ok read
    exact ⟨by rwa [TypeExpr.headSize, ← Nat.add_assoc], List.forall_mem_singleton.2 found, rfl,
      (Nat.add_assoc ..).symm⟩
  case indirect =>
    obtain ⟨⟨target, past⟩, read, h⟩ := Except.bind_eq_ok.1 h
    cases h
    exact ⟨here, List.forall_mem_nil _, rfl, _, read, rfl⟩
  case sized =>
    obtain ⟨size, uint, h⟩ := Except.bind_eq_ok.1 h
    obtain ⟨past, after, h⟩ := Except.bind_eq_ok.1 h
    obtain rfl := positionAfter_eq_ok after
    obtain ⟨⟨element, past⟩, read, h⟩ := Except.bind_eq_ok.1 h
    cases h
    have inside := (im.uint32_safe (o + 1)).2 size uint
    exact ⟨inside, List.forall_mem_nil _, rfl, _, read, rfl⟩
  case callable =>
    obtain ⟨⟨n, first⟩, count, h⟩ := Except.bind_eq_ok.1 h
    obtain ⟨⟨signature, past⟩, read, h⟩ := Except.bind_eq_ok.1 h
    cases h
    obtain ⟨rfl, inside, few⟩ := readSmallCount_eq_ok count
    obtain ⟨rfl, row⟩ := inARow_of_readMany read
    exact ⟨inside, List.forall_mem_nil _, few, row⟩
  case anonymous =>
    obtain ⟨⟨n, first⟩, count, h⟩ := Except.bind_eq_ok.1 h
    obtain ⟨⟨names, first'⟩, readNames, h⟩ := Except.bind_eq_ok.1 h
    obtain ⟨⟨types, past⟩, read, h⟩ := Except.bind_eq_ok.1 h
    cases h
    obtain ⟨rfl, inside, few⟩ := readSmallCount_eq_ok count
    obtain ⟨rfl, row⟩ := inARow_of_readMany readNames
    obtain ⟨length, row'⟩ := inARow_of_readMany read
    obtain ⟨rfl, inside', found⟩ := inARow_readName inside row
    obtain ⟨ofNames, ofTypes⟩ := map_zipWith_fields length
    have size : o + TypeExpr.headSize im.format (.anonymous kind (names.zipWith Field.mk types)) =
        o + 1 + 1 + im.format.pointerWidth * names.length := by
      rw [TypeExpr.headSize, List.length_zipWith, length, Nat.min_self]
      omega
    refine ⟨size ▸ inside', ?_, ?_, ?_⟩
    · rw [TypeExpr.ownParts, List.forall_mem_map]
      exact fun field mem => found field.name (ofNames ▸ List.mem_map_of_mem mem)
    · show tooMany? (names.zipWith Field.mk types).length = none
      rw [List.length_zipWith, length, Nat.min_self]
      exact few
    · rw [size, TypeExpr.children, ofTypes]
      exact row'

/-! ## Types -/

/-- What is known of a type that was read from `o` up to `next` with so many levels. -/
structure TypeExpr.Found (im : Image) (levels : Nat) (o : Offset) (t : TypeExpr) (next : Offset) :
    Prop where
  size : next = o + t.runSize im.format
  inside : next ≤ im.size
  low : t.height ≤ levels
  parts : ∀ p ∈ t.parts, p.Found im
  few : t.subtypes.findSome? TypeExpr.tooMany? = none

/-- What is known of types that were read in a row. -/
structure TypesFound (im : Image) (levels : Nat) (o : Offset) (ts : List TypeExpr) (next : Offset) :
    Prop where
  size : next = o + runSizeOfTypes im.format ts
  inside : next ≤ im.size
  low : heightOfTypes ts ≤ levels
  parts : ∀ p ∈ partsOfTypes ts, p.Found im
  few : refusalOfTypes? ts = none

theorem inARow_readTypeWithin {levels : Nat} {ts : List TypeExpr}
    (each : ∀ {o next : Nat} {t : TypeExpr}, readTypeWithin im levels o = .ok (t, next) →
      t.Found im levels o next)
    (start : o ≤ im.size) (row : InARow (readTypeWithin im levels) o ts next) :
    TypesFound im levels o ts next := by
  induction ts generalizing o with
  | nil =>
    cases row
    exact ⟨rfl, start, Nat.zero_le _, nofun, rfl⟩
  | cons t ts ih =>
    obtain ⟨past, first, rest⟩ := row
    have head := each first
    have tail := ih head.inside rest
    refine ⟨?_, tail.inside, Nat.max_le.2 ⟨head.low, tail.low⟩, ?_, ?_⟩
    · rw [tail.size, head.size, runSizeOfTypes, Nat.add_assoc]
    · exact List.forall_mem_append.2 ⟨head.parts, tail.parts⟩
    · have few := tail.few
      unfold refusalOfTypes? at few ⊢
      rw [subtypesOfTypes, List.findSome?_append, head.few, few]
      rfl

/-- **What is read as a type could have been written**: it is no higher than the reader could go, its
counts have one byte, and the names and protocols in it are texts of the image. -/
theorem readTypeWithin_found {levels : Nat} {t : TypeExpr}
    (h : readTypeWithin im levels o = .ok (t, next)) : t.Found im levels o next := by
  induction levels generalizing o next t with
  | zero => cases h
  | succ levels ih =>
    obtain ⟨inside, own, few, row⟩ := readTypeWithin_head h
    have below := inARow_readTypeWithin ih inside row
    refine ⟨?_, below.inside, ?_, ?_, ?_⟩
    · rw [below.size, TypeExpr.runSize_eq, Nat.add_assoc]
    · rw [TypeExpr.height_eq]
      exact Nat.succ_le_succ below.low
    · rw [TypeExpr.parts_eq]
      exact List.forall_mem_append.2 ⟨own, below.parts⟩
    · rw [TypeExpr.subtypes_eq, findSome?_cons_eq_or, few, Option.none_or]
      exact below.few

end

end DeclArchive
