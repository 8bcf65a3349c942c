import DeclArchive.Record.VersionByte
import Mathlib.Tactic.SplitIfs

/-!
# What a version byte keeps

`Version.Kept v w` says what is to be left of a version `v` in one byte: whether it is known, its major
component up to `31` and its minor one modulo `8`. The byte `0` stands for the unknown version, but it is
also the byte of each version `0.m` whose minor component is negative or a multiple of eight
(`encode_eq_zero`). Such a version is read back as unknown (`not_kept_zero`); every other one is kept
(`decode_encode_kept`).
-/

namespace DeclArchive

/-- `w` is what one byte should keep of `v`. -/
structure Version.Kept (v w : Version) : Prop where
  known : w.isKnown ↔ v.isKnown
  major : v.isKnown → w.major.toInt = min v.major.toInt 31
  minor : v.isKnown → w.minor.toInt = if v.minor.toInt < 0 then 0 else v.minor.toInt % 8
  subMinor : v.isKnown → w.subMinor = -1
  unknown : ¬ v.isKnown → w = .unknown

/-- The version is known, but nothing of it is left in its byte. -/
def Version.Vanishes (v : Version) : Prop :=
  v.major.toInt = 0 ∧ (v.minor.toInt < 0 ∨ v.minor.toInt % 8 = 0)

instance (v : Version) : Decidable v.Vanishes := inferInstanceAs (Decidable (_ ∧ _))

theorem Version.isKnown_iff {v : Version} : v.isKnown ↔ 0 ≤ v.major.toInt := by
  rw [isKnown, decide_eq_true_eq, Int32.le_iff_toInt_le]
  rfl

namespace VersionByte

variable {v : Version} {b : UInt8}

/-! ## Writing -/

/-- The two numbers in the byte of a known version. -/
theorem toNat_encode (known : v.isKnown) :
    (encode v).toNat = 8 * min v.major.toInt.toNat 31 + v.minor.toInt.toNat % 8 := by
  rw [encode, if_pos known]
  refine UInt8.toNat_ofNat_of_lt' ?_
  show 8 * min v.major.toInt.toNat 31 + v.minor.toInt.toNat % 8 < 256
  omega

/-- In bits, the byte is the major component, shifted past the three lowest bits of the minor one. -/
theorem encode_eq_or (known : v.isKnown) :
    encode v = UInt8.ofNat (min v.major.toInt.toNat 31) <<< 3 |||
      (UInt8.ofNat v.minor.toInt.toNat &&& 7) := by
  have major : (UInt8.ofNat (min v.major.toInt.toNat 31) <<< 3).toNat =
      min v.major.toInt.toNat 31 <<< 3 := by
    rw [UInt8.toNat_shiftLeft, UInt8.toNat_ofNat', show (3 : UInt8).toNat % 8 = 3 from rfl,
      Nat.shiftLeft_eq, Nat.shiftLeft_eq]
    omega
  have minor : (UInt8.ofNat v.minor.toInt.toNat &&& 7).toNat = v.minor.toInt.toNat % 8 := by
    rw [UInt8.toNat_and, UInt8.toNat_ofNat', show (7 : UInt8).toNat = 2 ^ 3 - 1 from rfl,
      Nat.and_two_pow_sub_one_eq_mod]
    omega
  have low : v.minor.toInt.toNat % 8 < 2 ^ 3 := Nat.mod_lt _ (by decide)
  rw [← UInt8.toNat_inj, toNat_encode known, UInt8.toNat_or, major, minor,
    ← Nat.shiftLeft_add_eq_or_of_lt low, Nat.shiftLeft_eq, Nat.mul_comm]

/-- The byte of the unknown version is that of the versions which vanish as well, and of no other. -/
theorem encode_eq_zero : encode v = 0 ↔ ¬ v.isKnown ∨ v.Vanishes := by
  by_cases known : v.isKnown
  · have major := Version.isKnown_iff.1 known
    have byte := toNat_encode known
    rw [← UInt8.toNat_inj, byte, Version.Vanishes]
    simp only [known, not_true_eq_false, false_or, UInt8.toNat_zero]
    omega
  · rw [encode, if_neg known]
    simp [known]

/-! ## Reading -/

theorem decode_ne_zero (h : b ≠ 0) :
    (decode b).major.toInt = b.toNat / 8 ∧ (decode b).minor.toInt = b.toNat % 8 ∧
      (decode b).subMinor = -1 := by
  have lt := b.toNat_lt
  rw [decode, if_neg h]
  exact ⟨Int32.toInt_ofNat_of_lt (by omega), Int32.toInt_ofNat_of_lt (by omega), rfl⟩

/-- **What is read back of a version.** Where a byte has room for it, it is kept; a version `0.m` with
nothing of `m` left is read as unknown. -/
theorem decode_encode_kept (v : Version) :
    (v.Vanishes → decode (encode v) = .unknown) ∧ (¬ v.Vanishes → v.Kept (decode (encode v))) := by
  constructor
  · intro vanishes
    rw [encode_eq_zero.2 (.inr vanishes)]
    rfl
  intro stays
  by_cases known : v.isKnown
  · have ne : encode v ≠ 0 := fun zero =>
      (encode_eq_zero.1 zero).elim (fun unknown => unknown known) stays
    have byte := toNat_encode known
    obtain ⟨major, minor, subMinor⟩ := decode_ne_zero ne
    have sign := Version.isKnown_iff.1 known
    refine ⟨iff_of_true (Version.isKnown_iff.2 (by omega)) known, fun _ => by omega, fun _ => ?_,
      fun _ => subMinor, fun unknown => (unknown known).elim⟩
    rw [minor, byte]
    split_ifs <;> omega
  · rw [encode_eq_zero.2 (.inl known)]
    exact ⟨iff_of_false (by decide) known, fun h => (known h).elim, fun h => (known h).elim,
      fun h => (known h).elim, fun _ => rfl⟩

/-- Components that are too large are cut to what the byte has room for. -/
theorem decode_encode_kept_cut :
    ¬ Version.Vanishes ⟨40, 13, 2⟩ ∧ Version.Kept ⟨40, 13, 2⟩ (decode (encode ⟨40, 13, 2⟩)) :=
  ⟨by decide, (decode_encode_kept ⟨40, 13, 2⟩).2 (by decide)⟩

/-- Version `0.0` is known, but its byte is not. -/
theorem not_kept_zero : ¬ ∀ v : Version, v.Kept (decode (encode v)) := by
  intro kept
  have known : (decode (encode ⟨0, 0, -1⟩)).isKnown := (kept ⟨0, 0, -1⟩).known.2 (by decide)
  exact absurd known (by decide)

end VersionByte

end DeclArchive
