import DeclArchive.Heap.Image
import DeclArchive.Proofs.Runs
import DeclArchive.Proofs.Utf8

/-!
# Reading what is there

`Image.Has im o data` says that the bytes of an image from `o` on begin with `data`. Each reader has
a lemma that says what it returns where its bytes are there: the numbers (`number_of_has`), pointers
and arrays (`array_of_has`) and texts (`text_of_has`).

Positions are computed past what was read. In an image that fits one block of memory
(`Image.Fits`) a position inside it, or at its end, is never too large (`positionAfter_of_le`).
-/

namespace DeclArchive

theorem Widths.check_returns {w : Widths} {f : Format} (h : w.check = .ok f) : f.toWidths = w := by
  unfold Widths.check at h
  split_ifs at h
  cases h
  rfl

namespace Format

variable (f : Format)

theorem pointerWidth_pos : 0 < f.pointerWidth := f.valid.1.1

theorem pointerWidth_le : f.pointerWidth ≤ 8 := f.valid.1.2

theorem countWidth_pos : 0 < f.countWidth := f.valid.2.1

theorem countWidth_le : f.countWidth ≤ 8 := f.valid.2.2

theorem lt_of_le_largestOffset {o : Nat} (h : o ≤ f.largestOffset) :
    o < LittleEndian.span f.pointerWidth := by
  have width : min f.pointer.toNat 8 = f.pointerWidth := Nat.min_eq_left f.pointerWidth_le
  have pos := LittleEndian.span_pos f.pointerWidth
  rw [Widths.largestOffset, Widths.largest, width] at h
  omega

theorem lt_of_le_largestCount {n : Nat} (h : n ≤ f.largestCount) :
    n < LittleEndian.span f.countWidth := by
  have width : min f.count.toNat 8 = f.countWidth := Nat.min_eq_left f.countWidth_le
  have pos := LittleEndian.span_pos f.countWidth
  rw [Widths.largestCount, Widths.largest, width] at h
  omega

end Format

namespace Image

variable {im : Image} {o : Nat} {data : List UInt8}

/-- The bytes from `o` on begin with `data`. -/
def Has (im : Image) (o : Offset) (data : List UInt8) : Prop :=
  data <+: im.bytes.toList.drop o

/-- The image is in one block of memory. -/
def Fits (im : Image) : Prop := im.size ≤ Heap.largestBlock

theorem has_append {first rest : List UInt8} :
    im.Has o (first ++ rest) ↔ im.Has o first ∧ im.Has (o + first.length) rest := by
  unfold Has
  rw [← List.drop_drop]
  generalize im.bytes.toList.drop o = bytes
  constructor
  · rintro ⟨after, rfl⟩
    refine ⟨⟨rest ++ after, (List.append_assoc ..).symm⟩, ?_⟩
    rw [List.append_assoc, List.drop_left]
    exact List.prefix_append rest after
  · rintro ⟨⟨after, rfl⟩, h⟩
    rw [List.drop_left] at h
    exact (List.prefix_append_right_inj first).2 h

theorem Has.size_le (h : im.Has o data) (ne : data ≠ []) : o + data.length ≤ im.size := by
  have length := h.length_le
  have pos := List.length_pos_of_ne_nil ne
  have total : im.bytes.toList.length = im.size := Array.length_toList
  rw [List.length_drop] at length
  omega

theorem bytesAt_of_has (h : im.Has o data) (ne : data ≠ []) :
    im.bytesAt o data.length = .ok data := by
  have taken : (im.bytes.extract o (o + data.length)).toList = data := by
    rw [Array.toList_extract, List.extract, Nat.add_sub_cancel_left]
    exact (List.prefix_iff_eq_take.1 h).symm
  rw [bytesAt, if_pos (h.size_le ne), taken]

/-! ## Positions -/

theorem positionAfter_of_le {n : Nat} (fits : im.Fits) (h : o + n ≤ im.size) :
    positionAfter o n = .ok (o + n) := by
  have : o + n ≤ largestPosition := h.trans (fits.trans (by decide))
  rw [positionAfter, if_pos this]

theorem pastPointer_of_le (fits : im.Fits) (h : o + im.format.pointerWidth ≤ im.size) :
    im.pastPointer o = .ok (o + im.format.pointerWidth) :=
  positionAfter_of_le fits h

/-! ## Numbers -/

theorem encode_ne_nil {width : Nat} (pos : 0 < width) (n : Nat) :
    LittleEndian.encode width n ≠ [] := by
  rw [← List.length_pos_iff, LittleEndian.length_encode]
  exact pos

theorem number_of_has {width n : Nat} (pos : 0 < width)
    (h : im.Has o (LittleEndian.encode width n)) :
    im.number o width = .ok (n % LittleEndian.span width) := by
  have raw := bytesAt_of_has h (encode_ne_nil pos n)
  rw [LittleEndian.length_encode] at raw
  rw [number, raw, ← LittleEndian.decode_encode]
  rfl

theorem byte_of_has {v : UInt8} (h : im.Has o [v]) : im.byte o = .ok v := by
  have raw := bytesAt_of_has h (List.cons_ne_nil v [])
  rw [List.length_singleton] at raw
  rw [byte, number, raw]
  show Except.ok (UInt8.ofNat (v.toNat + 256 * 0)) = _
  rw [Nat.mul_zero, Nat.add_zero, UInt8.ofNat_toNat]

theorem uint16_of_has {v : UInt16} (h : im.Has o (LittleEndian.encode 2 v.toNat)) :
    im.uint16 o = .ok v := by
  have lt : v.toNat < LittleEndian.span 2 := v.toNat_lt
  rw [uint16, number_of_has (by decide) h, Nat.mod_eq_of_lt lt]
  exact congrArg Except.ok UInt16.ofNat_toNat

theorem int16_of_has {v : Int16} (h : im.Has o (LittleEndian.encode 2 v.toUInt16.toNat)) :
    im.int16 o = .ok v := by
  rw [int16, uint16_of_has h]
  rfl

theorem uint32_of_has {v : UInt32} (h : im.Has o (LittleEndian.encode 4 v.toNat)) :
    im.uint32 o = .ok v := by
  have lt : v.toNat < LittleEndian.span 4 := v.toNat_lt
  rw [uint32, number_of_has (by decide) h, Nat.mod_eq_of_lt lt]
  exact congrArg Except.ok UInt32.ofNat_toNat

theorem uint64_of_has {v : UInt64} (h : im.Has o (LittleEndian.encode 8 v.toNat)) :
    im.uint64 o = .ok v := by
  have lt : v.toNat < LittleEndian.span 8 := v.toNat_lt
  rw [uint64, number_of_has (by decide) h, Nat.mod_eq_of_lt lt]
  exact congrArg Except.ok UInt64.ofNat_toNat

theorem uint_of_has {width : UInt8} {n : Nat} (pos : 0 < width.toNat) (le : width.toNat ≤ 8)
    (lt : n < LittleEndian.span width.toNat) (h : im.Has o (LittleEndian.encode width.toNat n)) :
    im.uint o width = .ok n := by
  have raw := bytesAt_of_has h (encode_ne_nil pos n)
  rw [LittleEndian.length_encode] at raw
  have narrow : ¬ 8 < (LittleEndian.encode width.toNat n).length := by
    rw [LittleEndian.length_encode]; omega
  rw [uint, raw, Except.ok_bind, if_neg narrow, LittleEndian.decode_encode, Nat.mod_eq_of_lt lt]
  rfl

/-! ## Pointers and arrays -/

theorem pointer_of_has {target : Offset} (le : target ≤ im.format.largestOffset)
    (h : im.Has o (LittleEndian.encode im.format.pointerWidth target)) :
    im.pointer o = .ok target :=
  uint_of_has im.format.pointerWidth_pos im.format.pointerWidth_le
    (im.format.lt_of_le_largestOffset le) h

theorem count_of_has {n : Nat} (le : n ≤ im.format.largestCount)
    (h : im.Has o (LittleEndian.encode im.format.countWidth n)) : im.count o = .ok n :=
  uint_of_has im.format.countWidth_pos im.format.countWidth_le
    (im.format.lt_of_le_largestCount le) h

/-- The bytes of pointers one after another. -/
def pointerRun (f : Format) (targets : List Offset) : List UInt8 :=
  targets.flatMap (LittleEndian.encode f.pointerWidth)

theorem length_pointerRun (f : Format) (targets : List Offset) :
    (pointerRun f targets).length = targets.length * f.pointerWidth := by
  induction targets with
  | nil => rw [List.length_nil, Nat.zero_mul]; rfl
  | cons target rest ih =>
    rw [pointerRun, List.flatMap_cons, List.length_append, LittleEndian.length_encode,
      List.length_cons, Nat.succ_mul, Nat.add_comm]
    exact congrArg (· + _) ih

theorem pointer_of_run {target : Offset} {rest : List Offset} (fits : im.Fits)
    (le : target ≤ im.format.largestOffset) (h : im.Has o (pointerRun im.format (target :: rest))) :
    im.pointer o = .ok target ∧ im.pastPointer o = .ok (o + im.format.pointerWidth) ∧
      im.Has (o + im.format.pointerWidth) (pointerRun im.format rest) := by
  have ⟨here, there⟩ := has_append.1 h
  have inside := here.size_le (encode_ne_nil im.format.pointerWidth_pos target)
  rw [LittleEndian.length_encode] at there inside
  exact ⟨pointer_of_has le here, pastPointer_of_le fits inside, there⟩

theorem pointersFrom_of_has {targets : List Offset} {read : List Offset} (fits : im.Fits)
    (le : ∀ target ∈ targets, target ≤ im.format.largestOffset)
    (h : im.Has o (pointerRun im.format targets)) :
    im.pointersFrom targets.length o read = .ok (read.reverse ++ targets) := by
  induction targets generalizing o read with
  | nil => rw [List.length_nil, pointersFrom, List.append_nil]
  | cons target rest ih =>
    obtain ⟨first, others⟩ := List.forall_mem_cons.1 le
    obtain ⟨pointer, past, there⟩ := pointer_of_run fits first h
    rw [List.length_cons, pointersFrom, pointer, Except.ok_bind, past, Except.ok_bind,
      ih others there, List.reverse_cons, List.append_assoc]
    rfl

theorem array_of_has {targets : List Offset} (fits : im.Fits)
    (few : targets.length ≤ im.format.largestCount)
    (le : ∀ target ∈ targets, target ≤ im.format.largestOffset)
    (h : im.Has o (LittleEndian.encode im.format.countWidth targets.length ++
      pointerRun im.format targets)) :
    im.array o = .ok targets := by
  have ⟨number, run⟩ := has_append.1 h
  have inside := number.size_le (encode_ne_nil im.format.countWidth_pos _)
  rw [LittleEndian.length_encode] at run inside
  rw [array, count_of_has few number, Except.ok_bind, positionAfter_of_le fits inside,
    Except.ok_bind, pointersFrom_of_has fits le run]
  rfl

/-! ## Texts -/

theorem scan_of_drop {fuel : Nat} {before after read : List UInt8} (zeroFree : 0 ∉ before)
    (enough : before.length < fuel) (h : im.bytes.toList.drop o = before ++ 0 :: after) :
    im.scan fuel o read = some (read.reverse ++ before) := by
  induction before generalizing o fuel read with
  | nil =>
    obtain ⟨fuel, rfl⟩ := Nat.exists_eq_add_of_lt enough
    have here : im.bytes[o]? = some 0 := by
      rw [← Array.getElem?_toList, ← List.head?_drop, h]; rfl
    rw [List.length_nil, Nat.zero_add, scan, here]
    simp
  | cons b before ih =>
    obtain ⟨fuel, rfl⟩ : ∃ k, fuel = k + 1 := ⟨fuel - 1, by rw [List.length_cons] at enough; omega⟩
    have here : im.bytes[o]? = some b := by
      rw [← Array.getElem?_toList, ← List.head?_drop, h]; rfl
    have next : im.bytes.toList.drop (o + 1) = before ++ 0 :: after := by
      rw [← List.drop_drop, h]; rfl
    have ne : b ≠ 0 := fun e => zeroFree (e ▸ List.mem_cons_self)
    rw [scan, here]
    simp only [if_neg ne]
    rw [ih (fun m => zeroFree (List.mem_cons_of_mem b m)) (by rw [List.length_cons] at enough; omega)
      next, List.reverse_cons, List.append_assoc]
    rfl

/-- From the first zero on, bytes that a zero follows begin with a zero. -/
theorem exists_dropWhile_eq (bytes after : List UInt8) :
    ∃ rest, bytes.dropWhile (· ≠ 0) ++ 0 :: after = 0 :: rest := by
  have first := List.head?_dropWhile_not (· ≠ (0 : UInt8)) bytes
  rcases dropped : bytes.dropWhile (· ≠ 0) with _ | ⟨b, bs⟩
  · exact ⟨after, by rw [dropped]; rfl⟩
  · rw [dropped] at first
    have : b = 0 := by simpa using first
    exact ⟨bs ++ 0 :: after, by rw [dropped, this]; rfl⟩

theorem untilZero_of_has (h : im.Has o (data ++ [0])) :
    im.untilZero o = .ok (some (data.takeWhile (· ≠ 0))) := by
  have inside := h.size_le (by simp)
  rw [List.length_append, List.length_singleton] at inside
  have start : ¬ im.size < o := by omega
  obtain ⟨after, whole⟩ := h
  obtain ⟨rest, first⟩ := exists_dropWhile_eq data after
  have zeroFree : 0 ∉ data.takeWhile (· ≠ 0) := fun m => by
    simpa using List.mem_takeWhile_imp m
  have split : im.bytes.toList.drop o = data.takeWhile (· ≠ 0) ++ 0 :: rest := by
    rw [← first, ← List.append_assoc, List.takeWhile_append_dropWhile, ← whole, List.append_assoc]
    rfl
  have length := congrArg List.length split
  have total : im.bytes.toList.length = im.size := Array.length_toList
  rw [List.length_drop, List.length_append, List.length_cons] at length
  rw [untilZero, if_neg start, scan_of_drop zeroFree (by omega) split]
  rfl

/-- What is read of a text ends before its first `U+0000`. -/
theorem text_of_has {s : String} (ne : o ≠ 0) (h : im.Has o (Utf8.encode s ++ [0])) :
    im.text o = .ok (Utf8.upToNul s) := by
  have inside := h.size_le (by simp)
  rw [List.length_append, List.length_singleton] at inside
  have notNull : Offset.isNull o = false := by simpa [Offset.isNull] using ne
  have one : o + 1 ≤ im.size := by omega
  have here : im.bytesAt o 1 = .ok (im.bytes.extract o (o + 1)).toList := if_pos one
  unfold text
  simp only [notNull, here, Except.ok_bind, untilZero_of_has h, Utf8.takeWhile_encode,
    Utf8.decode_encode]
  rfl

end Image

end DeclArchive
