/-!
# UTF-8

The bytes of a text, and strict decoding: no overlong form, no surrogate, nothing above U+10FFFF.
`decode` reads the bytes once, left to right. Where it stops it says whether the bytes end inside a
character that is sound so far (`Flaw.incomplete`), or how many bytes belong to the beginning that
no character continues (`Flaw.invalid`).
-/

namespace DeclArchive.Utf8

/-- The bytes of a text. -/
def encode (s : String) : List UInt8 :=
  s.toList.flatMap String.utf8EncodeChar

/-- Why bytes are not UTF-8; `index` is where the character at fault begins. -/
inductive Flaw where
  /-- The bytes end inside a character. -/
  | incomplete (index : Nat)
  /-- The first `length` bytes at `index` begin no character together with the byte after them. -/
  | invalid (length index : Nat)
  deriving DecidableEq, Repr

/-- The wording of a flaw. -/
def Flaw.message : Flaw → String
  | .incomplete index => s!"incomplete utf-8 byte sequence from index {index}"
  | .invalid length index => s!"invalid utf-8 sequence of {length} bytes from index {index}"

/-! ## Decoding -/

/-- A character of several bytes whose first bytes were read. -/
structure Partial where
  /-- Bytes still owed after the next one. -/
  more : Nat
  /-- The least value of the next byte. -/
  low : UInt8
  /-- The greatest value of the next byte. -/
  high : UInt8
  /-- The code point read so far. -/
  value : Nat
  /-- Bytes read so far. -/
  seen : Nat
  deriving DecidableEq, Repr

/-- What the first byte of a longer character announces. The range of the second byte keeps out
overlong forms, surrogates and values above U+10FFFF. -/
def lead? (b : UInt8) : Option Partial :=
  let start (more : Nat) (low high : UInt8) (mask : UInt8) : Option Partial :=
    some ⟨more, low, high, (b &&& mask).toNat, 1⟩
  if b < 0xC2 then none
  else if b ≤ 0xDF then start 0 0x80 0xBF 0x1F
  else if b = 0xE0 then start 1 0xA0 0xBF 0x0F
  else if b = 0xED then start 1 0x80 0x9F 0x0F
  else if b ≤ 0xEF then start 1 0x80 0xBF 0x0F
  else if b = 0xF0 then start 2 0x90 0xBF 0x07
  else if b ≤ 0xF3 then start 2 0x80 0xBF 0x07
  else if b = 0xF4 then start 2 0x80 0x8F 0x07
  else none

/-- Between characters (`none`) or inside one. -/
abbrev State := Option Partial

/-- Reads bytes from `state`; `index` is where the character in hand begins, `done` holds the
characters before it in reverse. -/
def decodeFrom : State → Nat → List Char → List UInt8 → Except Flaw (List Char)
  | none, _, done, [] => .ok done.reverse
  | some _, index, _, [] => .error (.incomplete index)
  | none, index, done, b :: bs =>
    if b < 0x80 then decodeFrom none (index + 1) (Char.ofNat b.toNat :: done) bs
    else match lead? b with
      | none => .error (.invalid 1 index)
      | some p => decodeFrom (some p) index done bs
  | some p, index, done, b :: bs =>
    if p.low ≤ b ∧ b ≤ p.high then
      let value := p.value * 64 + (b &&& 0x3F).toNat
      match p.more with
      | 0 => decodeFrom none (index + p.seen + 1) (Char.ofNat value :: done) bs
      | more + 1 => decodeFrom (some ⟨more, 0x80, 0xBF, value, p.seen + 1⟩) index done bs
    else .error (.invalid p.seen index)

/-- The text with the given bytes. -/
def decode (bytes : List UInt8) : Except Flaw String :=
  (decodeFrom none 0 [] bytes).map String.ofList

end DeclArchive.Utf8
