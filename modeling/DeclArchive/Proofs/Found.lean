import DeclArchive.Proofs.Safety

/-!
# What was read is there

Where a read of any bytes succeeds, they hold what was read: values that are read in a row lie one behind
another (`readMany_eq_ok`), and if each of them takes some bytes, the image has room for as many as the count
before them says (`readCounted_eq_ok`). So a count fits its width, the pointers of an array are in the image
(`Image.array_eq_ok`), and a text is there with a zero byte behind it and none inside (`Image.text_eq_ok`).
-/

namespace DeclArchive

theorem positionAfter_eq_ok {o n o' : Nat} (h : positionAfter o n = .ok o') : o' = o + n := by
  unfold positionAfter at h
  split_ifs at h
  cases h
  rfl

theorem Format.le_largestCount (f : Format) {n : Nat} (h : n < LittleEndian.span f.countWidth) :
    n ≤ f.largestCount := by
  have width : min f.count.toNat 8 = f.countWidth := Nat.min_eq_left f.countWidth_le
  rw [Widths.largestCount, Widths.largest, width]
  omega

/-! ## Reads in a row -/

section

variable {α : Type} {step : Offset → Except Error (α × Offset)}

/-- The values are read one after another, from `o` up to `last`. -/
def InARow (step : Offset → Except Error (α × Offset)) : Offset → List α → Offset → Prop
  | o, [], last => o = last
  | o, x :: xs, last => ∃ next, step o = .ok (x, next) ∧ InARow step next xs last

theorem readMany_eq_ok {n : Nat} {o last : Offset} {read xs : List α}
    (h : readMany step n o read = .ok (xs, last)) :
    ∃ more, more.length = n ∧ xs = read.reverse ++ more ∧ InARow step o more last := by
  induction n generalizing o read with
  | zero =>
    cases h
    exact ⟨[], rfl, (List.append_nil _).symm, rfl⟩
  | succ n ih =>
    rw [readMany] at h
    obtain ⟨⟨x, next⟩, first, h⟩ := Except.bind_eq_ok.1 h
    obtain ⟨more, length, rfl, rest⟩ := ih h
    exact ⟨x :: more, congrArg (· + 1) length, by simp, next, first, rest⟩

/-- Several values are read in a row. -/
theorem inARow_of_readMany {n : Nat} {o last : Offset} {xs : List α}
    (h : readMany step n o [] = .ok (xs, last)) : xs.length = n ∧ InARow step o xs last := by
  obtain ⟨more, length, rfl, row⟩ := readMany_eq_ok h
  exact ⟨length, row⟩

variable {im : Image} {unit : Nat}

/-- A step that succeeds goes on by so many bytes or more, and ends in the image. -/
def Strides (im : Image) (unit : Nat) (step : Offset → Except Error (α × Offset)) : Prop :=
  ∀ ⦃o next : Nat⦄ ⦃x : α⦄, step o = .ok (x, next) → o + unit ≤ next ∧ next ≤ im.size

theorem Strides.inARow (strides : Strides im unit step) {o last : Nat} {xs : List α}
    (start : o ≤ im.size) (row : InARow step o xs last) :
    o + unit * xs.length ≤ last ∧ last ≤ im.size := by
  induction xs generalizing o with
  | nil =>
    cases row
    exact ⟨Nat.le_refl _, start⟩
  | cons x xs ih =>
    obtain ⟨next, first, rest⟩ := row
    obtain ⟨on, inside⟩ := strides first
    obtain ⟨further, inside⟩ := ih inside rest
    rw [List.length_cons, Nat.mul_succ]
    exact ⟨by omega, inside⟩

/-- Reads as many values as the count at `o` says, one after another behind it. -/
def readCounted (im : Image) (step : Offset → Except Error (α × Offset)) (o : Offset) :
    Except Error (List α) := do
  let n ← im.count o
  let first ← positionAfter o im.format.countWidth
  return (← readMany step n first []).1

/-- There are as many values as the count says, and the image has room for all of them. -/
theorem readCounted_eq_ok (strides : Strides im unit step) {o : Nat} {xs : List α}
    (h : readCounted im step o = .ok xs) :
    im.count o = .ok xs.length ∧ o + im.format.countWidth + unit * xs.length ≤ im.size := by
  unfold readCounted at h
  obtain ⟨n, count, h⟩ := Except.bind_eq_ok.1 h
  obtain ⟨first, past, h⟩ := Except.bind_eq_ok.1 h
  obtain ⟨⟨xs', last⟩, read, h⟩ := Except.bind_eq_ok.1 h
  cases h
  obtain rfl := positionAfter_eq_ok past
  obtain ⟨rfl, row⟩ := inARow_of_readMany read
  obtain ⟨room, inside⟩ := strides.inARow ((im.count_safe o).2 _ count) row
  exact ⟨count, room.trans inside⟩

end

namespace Image

variable {im : Image} {o : Nat}

/-! ## Arrays -/

theorem count_le {n : Nat} (h : im.count o = .ok n) : n ≤ im.format.largestCount := by
  unfold count uint at h
  obtain ⟨raw, bytes, h⟩ := Except.bind_eq_ok.1 h
  have length := ((im.bytesAt_safe o _).2 raw bytes).2
  split_ifs at h
  · cases h
  · cases h
    have bound := LittleEndian.decode_lt raw
    rw [length] at bound
    exact im.format.le_largestCount bound

/-- Reads the pointer at `o`. -/
def readPointer (im : Image) (o : Offset) : Except Error (Offset × Offset) := do
  let target ← im.pointer o
  return (target, ← im.pastPointer o)

theorem strides_readPointer (im : Image) : Strides im im.format.pointerWidth im.readPointer := by
  intro o next target h
  unfold readPointer at h
  obtain ⟨_, pointer, h⟩ := Except.bind_eq_ok.1 h
  obtain ⟨_, past, h⟩ := Except.bind_eq_ok.1 h
  cases h
  obtain rfl := positionAfter_eq_ok past
  exact ⟨Nat.le_refl _, (im.pointer_safe o).2 target pointer⟩

theorem pointersFrom_eq (im : Image) (n o : Nat) (read : List Offset) :
    im.pointersFrom n o read = readMany im.readPointer n o read >>= fun r => .ok r.1 := by
  induction n generalizing o read with
  | zero => rfl
  | succ n ih =>
    rw [pointersFrom, readMany, readPointer]
    rcases im.pointer o with e | target
    · rfl
    · rcases im.pastPointer o with e | next
      · rfl
      · exact ih next (target :: read)

/-- The pointers of an array are read one after another behind their count. -/
theorem array_eq (im : Image) (o : Offset) : im.array o = readCounted im im.readPointer o := by
  unfold array readCounted
  simp only [pointersFrom_eq]
  rfl

/-- An array has as many pointers as its count says, and all of them are in the image. -/
theorem array_eq_ok {os : List Offset} (h : im.array o = .ok os) :
    im.count o = .ok os.length ∧
      o + im.format.countWidth + im.format.pointerWidth * os.length ≤ im.size :=
  readCounted_eq_ok im.strides_readPointer (im.array_eq o ▸ h)

/-! ## Texts -/

theorem scan_eq_some {fuel : Nat} {read raw : List UInt8} (h : im.scan fuel o read = some raw) :
    ∃ bytes after, raw = read.reverse ++ bytes ∧ 0 ∉ bytes ∧
      im.bytes.toList.drop o = bytes ++ 0 :: after := by
  induction fuel generalizing o read with
  | zero => cases h
  | succ fuel ih =>
    rw [scan] at h
    cases here : im.bytes[o]? with
    | none =>
      rw [here] at h
      cases h
    | some b =>
      have split : im.bytes.toList.drop o = b :: im.bytes.toList.drop (o + 1) := by
        rw [← Array.getElem?_toList] at here
        obtain ⟨lt, rfl⟩ := List.getElem?_eq_some_iff.1 here
        exact List.drop_eq_getElem_cons lt
      rw [here] at h
      dsimp only at h
      split_ifs at h with zero
      · cases h
        exact ⟨[], _, (List.append_nil _).symm, List.not_mem_nil, zero ▸ split⟩
      · obtain ⟨bytes, after, rfl, zeroFree, rest⟩ := ih h
        refine ⟨b :: bytes, after, by simp, ?_, by rw [split, rest]; rfl⟩
        exact fun mem => (List.mem_cons.1 mem).elim (fun e => zero e.symm) zeroFree

/-- A text that is read is there, and has no `U+0000`. -/
theorem text_eq_ok {s : String} (h : im.text o = .ok s) :
    Utf8.NulFree s ∧ im.Has o (Utf8.encode s ++ [0]) := by
  unfold text at h
  split_ifs at h with null
  · cases h
  obtain ⟨_, -, h⟩ := Except.bind_eq_ok.1 h
  obtain ⟨raw?, until_, h⟩ := Except.bind_eq_ok.1 h
  rcases raw? with _ | raw
  · cases h
  dsimp only at h
  rcases decoded : Utf8.decode raw with flaw | s'
  · rw [decoded] at h
    cases h
  rw [decoded] at h
  cases h
  unfold untilZero at until_
  split_ifs at until_
  obtain ⟨bytes, after, rfl, zeroFree, there⟩ := scan_eq_some (Except.ok.inj until_)
  rw [Has, Utf8.encode_decode decoded, there]
  refine ⟨Utf8.nulFree_of_zero_notMem (by rwa [Utf8.encode_decode decoded]), after, ?_⟩
  rw [List.append_assoc]
  rfl

/-- The bytes of a text and the zero byte behind it are in the image. -/
theorem text_size_le {s : String} (h : im.text o = .ok s) :
    o + (Utf8.encode s).length < im.size := by
  have inside := (text_eq_ok h).2.size_le (by simp)
  rw [List.length_append, List.length_singleton] at inside
  omega

end Image

end DeclArchive
