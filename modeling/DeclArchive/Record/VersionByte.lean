import DeclArchive.Declaration

/-!
# Version bytes

An availability version is stored in one byte: five bits for the major component and three for the
minor one. A major component above `31` is stored as `31`, a minor one is taken modulo `8`, and the
byte `0` means that nothing is known.
-/

namespace DeclArchive.VersionByte

/-- The byte for a version. -/
def encode (v : Version) : UInt8 :=
  if v.isKnown then
    UInt8.ofNat (8 * min v.major.toNatClampNeg 31 + v.minor.toNatClampNeg % 8)
  else 0

/-- The version that a byte stands for. -/
def decode (b : UInt8) : Version :=
  if b = 0 then .unknown
  else ⟨Int32.ofNat (b.toNat / 8), Int32.ofNat (b.toNat % 8), -1⟩

end DeclArchive.VersionByte
