/-!
# Little-endian numbers

A number becomes a fixed count of bytes, least significant first, and such bytes become a number.
What is left of a number is its remainder by how many numbers the bytes can hold (`decode_encode`).
-/

namespace DeclArchive.LittleEndian

/-- How many numbers `width` bytes can hold. -/
def span (width : Nat) : Nat := Nat.pow 256 width

/-- The lowest `width` bytes of `n`. -/
def encode : (width n : Nat) → List UInt8
  | 0, _ => []
  | width + 1, n => UInt8.ofNat n :: encode width (n / 256)

/-- The number with the given bytes. -/
def decode : List UInt8 → Nat
  | [] => 0
  | b :: bs => b.toNat + 256 * decode bs

@[simp] theorem length_encode (width n : Nat) : (encode width n).length = width := by
  induction width generalizing n with
  | zero => rfl
  | succ width ih => simp [encode, ih]

theorem span_succ (width : Nat) : span (width + 1) = 256 * span width := Nat.mul_comm _ 256

theorem span_pos (width : Nat) : 0 < span width := Nat.pow_pos (by decide)

theorem decode_encode (width n : Nat) : decode (encode width n) = n % span width := by
  induction width generalizing n with
  | zero => exact (Nat.mod_one n).symm
  | succ width ih =>
    rw [encode, decode, ih, span_succ, Nat.mod_mul]
    simp

theorem decode_lt (bytes : List UInt8) : decode bytes < span bytes.length := by
  induction bytes with
  | nil => exact Nat.one_pos
  | cons b bs ih =>
    rw [decode, List.length_cons, span_succ]
    have := b.toNat_lt
    omega

end DeclArchive.LittleEndian
