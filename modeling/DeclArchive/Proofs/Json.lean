import DeclArchive.Json
import DeclArchive.Proofs.Runs

/-!
# Values that lose nothing

`Json.Lossless write read` says that what is written can be read, and is read as what it was. Texts and
numbers of four bytes are written so, and lists if what they hold is. In an object a key is found that is
there once (`field?_cons_self`, `field?_cons_of_ne`).
-/

namespace DeclArchive

namespace Json

/-- Every part of what is written can be read, and the whole is read as what was written. -/
structure Lossless {α : Type} (write : α → Json) (read : As α) : Prop where
  readable : ∀ x, (write x).isReadable = true
  read_write : ∀ x, read (write x) = .ok x

theorem depth_pos (v : Json) : 0 < v.depth := by
  cases v <;> simp [depth]

/-! ## Fields -/

section

variable {α : Type} {key key' : String} {v : Json} {fields : Fields} {default : α} {read : As α}

/-- A key is found at the front of the fields, if it is not there again. -/
theorem field?_cons_self (once : key ∉ fields.map Prod.fst) :
    field? ((key, v) :: fields) key = .ok (some v) := by
  have others : fields.filter (·.1 == key) = [] := by
    rw [List.filter_eq_nil_iff]
    intro field mem same
    exact once (List.mem_map.2 ⟨field, mem, by simpa using same⟩)
  simp [field?, others]

theorem field?_cons_of_ne (ne : key' ≠ key) :
    field? ((key', v) :: fields) key = field? fields key := by
  simp [field?, ne]

@[simp] theorem required_cons_self (once : key ∉ fields.map Prod.fst) :
    required ((key, v) :: fields) key read = read v := by
  rw [required, field?_cons_self once]
  rfl

@[simp] theorem required_cons_of_ne (ne : key' ≠ key) :
    required ((key', v) :: fields) key read = required fields key read := by
  rw [required, field?_cons_of_ne ne, required]

@[simp] theorem withDefault_nil : withDefault [] key default read = .ok default := rfl

@[simp] theorem withDefault_cons_self (once : key ∉ fields.map Prod.fst) :
    withDefault ((key, v) :: fields) key default read = read v := by
  rw [withDefault, field?_cons_self once]
  rfl

@[simp] theorem withDefault_cons_of_ne (ne : key' ≠ key) :
    withDefault ((key', v) :: fields) key default read = withDefault fields key default read := by
  rw [withDefault, field?_cons_of_ne ne, withDefault]

end

/-! ## Scalars -/

theorem lossless_text : Lossless text asText := ⟨fun _ => rfl, fun _ => rfl⟩

theorem asInteger_eq {low high n : Int} (above : low ≤ n) (below : n ≤ high) :
    asInteger low high (.integer n) = .ok n := by
  rw [asInteger, if_pos ⟨above, below⟩]

theorem lossless_int32 : Lossless (fun n : Int32 => .integer n.toInt) asInt32 where
  readable _ := rfl
  read_write n := by
    have low := n.le_toInt
    have high := n.toInt_lt
    rw [asInt32, asInteger_eq (by omega) (by omega), Except.ok_bind, Int32.ofInt_toInt]
    rfl

theorem lossless_uInt32 : Lossless (fun n : UInt32 => .integer n.toNat) asUInt32 where
  readable _ := rfl
  read_write n := by
    have high : n.toNat ≤ LittleEndian.span 4 - 1 := Nat.le_pred_of_lt n.toNat_lt
    rw [asUInt32, asNat, asInteger_eq (Int.natCast_nonneg _) (Int.ofNat_le.2 high)]
    show Except.ok (UInt32.ofNat (Int.toNat n.toNat)) = _
    rw [Int.toNat_natCast, UInt32.ofNat_toNat]

/-! ## Lists -/

section

variable {α : Type} {write : α → Json} {read : As α}

theorem allReadable_map (h : ∀ x, (write x).isReadable = true) (xs : List α) :
    allReadable (xs.map write) = true := by
  induction xs with
  | nil => rfl
  | cons x xs ih => rw [List.map_cons, allReadable, h, ih, Bool.and_self]

theorem Lossless.list (h : Lossless write read) :
    Lossless (fun xs => .list (xs.map write)) (asList read) where
  readable xs := allReadable_map h.readable xs
  read_write xs := by
    refine Except.mapM_eq_ok ?_
    rw [List.forall₂_map_left_iff]
    exact List.forall₂_same.2 fun x _ => h.read_write x

end

end Json

end DeclArchive
