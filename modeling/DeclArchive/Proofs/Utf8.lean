import DeclArchive.Text.Utf8
import Mathlib.Data.List.TakeWhile
import Mathlib.Tactic.SplitIfs

/-!
# Texts survive their bytes

`decode_encode`: decoding the bytes of a text gives the text. The bytes of one character are read
in one go (`decodeFrom_char`), so a text is read character by character. Nothing else is read
(`encode_decode`): bytes that can be decoded begin with those of a character (`exists_char`).

A zero byte belongs to the character `U+0000` and to no other. What a reader that stops at the
first zero byte sees of a text is `upToNul` (`takeWhile_encode`), which is the whole text if that
character is not in it (`upToNul_eq_self`).
-/

namespace DeclArchive.Utf8

/-! ## First bytes -/

theorem lead?_two {k : Nat} (low : 2 ≤ k) (high : k < 32) :
    lead? (UInt8.ofNat (k + 0xC0)) = some ⟨0, 0x80, 0xBF, k, 1⟩ := by
  have all : ∀ k < 32, 2 ≤ k → lead? (UInt8.ofNat (k + 0xC0)) = some ⟨0, 0x80, 0xBF, k, 1⟩ := by
    decide
  exact all k high low

theorem lead?_three {k : Nat} (high : k < 16) :
    lead? (UInt8.ofNat (k + 0xE0)) =
      some ⟨1, if k = 0 then 0xA0 else 0x80, if k = 13 then 0x9F else 0xBF, k, 1⟩ := by
  have all : ∀ k < 16, lead? (UInt8.ofNat (k + 0xE0)) =
      some ⟨1, if k = 0 then 0xA0 else 0x80, if k = 13 then 0x9F else 0xBF, k, 1⟩ := by
    decide
  exact all k high

theorem lead?_four {k : Nat} (high : k < 5) :
    lead? (UInt8.ofNat (k + 0xF0)) =
      some ⟨2, if k = 0 then 0x90 else 0x80, if k = 4 then 0x8F else 0xBF, k, 1⟩ := by
  have all : ∀ k < 5, lead? (UInt8.ofNat (k + 0xF0)) =
      some ⟨2, if k = 0 then 0x90 else 0x80, if k = 4 then 0x8F else 0xBF, k, 1⟩ := by
    decide
  exact all k high

/-! ## Reading one character -/

theorem decodeFrom_ascii {v : Nat} (small : v < 0x80) (i : Nat) (done : List Char)
    (bs : List UInt8) :
    decodeFrom none i done (UInt8.ofNat v :: bs) =
      decodeFrom none (i + 1) (Char.ofNat v :: done) bs := by
  have value : (UInt8.ofNat v).toNat = v := by
    rw [UInt8.toNat_ofNat']; omega
  have lt : UInt8.ofNat v < 0x80 := by
    rw [UInt8.lt_iff_toNat_lt, value]; exact small
  rw [decodeFrom, if_pos lt, value]

theorem decodeFrom_lead {b : UInt8} {p : Partial} (h : lead? b = some p) (i : Nat)
    (done : List Char) (bs : List UInt8) :
    decodeFrom none i done (b :: bs) = decodeFrom (some p) i done bs := by
  have large : ¬ b < 0x80 := by
    intro small
    have : b < 0xC2 := by
      rw [UInt8.lt_iff_toNat_lt] at small ⊢
      exact Nat.lt_trans small (by decide)
    simp [lead?, this] at h
  rw [decodeFrom, if_neg large, h]

/-- The value and the range of a byte that continues a character. -/
theorem continuation {k : Nat} (h : k < 64) :
    (UInt8.ofNat (k + 0x80)).toNat = k + 0x80 ∧ (UInt8.ofNat (k + 0x80) &&& 0x3F).toNat = k := by
  have value : (UInt8.ofNat (k + 0x80)).toNat = k + 0x80 := by
    rw [UInt8.toNat_ofNat']; omega
  refine ⟨value, ?_⟩
  rw [UInt8.toNat_and, value, show (0x3F : UInt8).toNat = 2 ^ 6 - 1 from rfl,
    Nat.and_two_pow_sub_one_eq_mod]
  omega

theorem decodeFrom_last {p : Partial} {k : Nat} (h : k < 64) (last : p.more = 0)
    (low : p.low.toNat ≤ k + 0x80) (high : k + 0x80 ≤ p.high.toNat) (i : Nat) (done : List Char)
    (bs : List UInt8) :
    decodeFrom (some p) i done (UInt8.ofNat (k + 0x80) :: bs) =
      decodeFrom none (i + p.seen + 1) (Char.ofNat (p.value * 64 + k) :: done) bs := by
  obtain ⟨value, bits⟩ := continuation h
  rw [decodeFrom, if_pos (by rw [UInt8.le_iff_toNat_le, UInt8.le_iff_toNat_le, value]; omega), last,
    bits]

theorem decodeFrom_next {p : Partial} {k more : Nat} (h : k < 64) (next : p.more = more + 1)
    (low : p.low.toNat ≤ k + 0x80) (high : k + 0x80 ≤ p.high.toNat) (i : Nat) (done : List Char)
    (bs : List UInt8) :
    decodeFrom (some p) i done (UInt8.ofNat (k + 0x80) :: bs) =
      decodeFrom (some ⟨more, 0x80, 0xBF, p.value * 64 + k, p.seen + 1⟩) i done bs := by
  obtain ⟨value, bits⟩ := continuation h
  rw [decodeFrom, if_pos (by rw [UInt8.le_iff_toNat_le, UInt8.le_iff_toNat_le, value]; omega), next,
    bits]

/-- The code points of characters. -/
theorem char_range (c : Char) :
    c.val.toNat < 0xD800 ∨ 0xDFFF < c.val.toNat ∧ c.val.toNat < 0x110000 := c.valid

/-- The bytes of a character are read as that character. -/
theorem decodeFrom_char (c : Char) (i : Nat) (done : List Char) (bs : List UInt8) :
    decodeFrom none i done (String.utf8EncodeChar c ++ bs) =
      decodeFrom none (i + c.utf8Size) (c :: done) bs := by
  have range := char_range c
  have self : Char.ofNat c.val.toNat = c := Char.ofNat_toNat c
  rw [← String.length_utf8EncodeChar c]
  dsimp only [String.utf8EncodeChar]
  generalize c.val.toNat = v at *
  -- one case for each length, from one byte to four
  split_ifs with one two three
  · rw [List.cons_append, List.nil_append, decodeFrom_ascii (by omega), self]
    rfl
  · rw [List.cons_append, List.cons_append, List.nil_append,
      decodeFrom_lead (lead?_two (by omega) (by omega)),
      decodeFrom_last (by omega) rfl (by simp) (by simp; omega),
      show v / 64 % 32 * 64 + v % 64 = v by omega, self]
    rfl
  · have low : (if v / 4096 % 16 = 0 then 0xA0 else 0x80 : UInt8).toNat ≤ v / 64 % 64 + 0x80 := by
      split_ifs <;> simp
      omega
    have high : v / 64 % 64 + 0x80 ≤ (if v / 4096 % 16 = 13 then 0x9F else 0xBF : UInt8).toNat := by
      split_ifs <;> simp <;> omega
    rw [List.cons_append, List.cons_append, List.cons_append, List.nil_append,
      decodeFrom_lead (lead?_three (by omega)), decodeFrom_next (by omega) rfl low high,
      decodeFrom_last (by omega) rfl (by simp) (by simp; omega),
      show (v / 4096 % 16 * 64 + v / 64 % 64) * 64 + v % 64 = v by omega, self]
    rfl
  · have low : (if v / 262144 % 8 = 0 then 0x90 else 0x80 : UInt8).toNat ≤ v / 4096 % 64 + 0x80 := by
      split_ifs <;> simp
      omega
    have high : v / 4096 % 64 + 0x80 ≤ (if v / 262144 % 8 = 4 then 0x8F else 0xBF : UInt8).toNat := by
      split_ifs <;> simp <;> omega
    rw [List.cons_append, List.cons_append, List.cons_append, List.cons_append, List.nil_append,
      decodeFrom_lead (lead?_four (by omega)), decodeFrom_next (by omega) rfl low high,
      decodeFrom_next (by omega) rfl (by simp) (by simp; omega),
      decodeFrom_last (by omega) rfl (by simp) (by simp; omega),
      show ((v / 262144 % 8 * 64 + v / 4096 % 64) * 64 + v / 64 % 64) * 64 + v % 64 = v by omega,
      self]
    rfl

/-! ## Reading a text -/

theorem decodeFrom_chars (cs : List Char) (i : Nat) (done : List Char) :
    decodeFrom none i done (cs.flatMap String.utf8EncodeChar) = .ok (done.reverse ++ cs) := by
  induction cs generalizing i done with
  | nil => rw [List.flatMap_nil, decodeFrom, List.append_nil]
  | cons c cs ih => rw [List.flatMap_cons, decodeFrom_char, ih, List.reverse_cons, List.append_assoc]; rfl

/-- **Decoding undoes encoding.** -/
theorem decode_encode (s : String) : decode (encode s) = .ok s := by
  unfold decode encode
  rw [decodeFrom_chars]
  simp [Except.map]

/-! ## Reading nothing but texts -/

theorem val_ofNat {v : Nat} (valid : v.isValidChar) : (Char.ofNat v).val.toNat = v := by
  unfold Char.ofNat
  rw [dif_pos valid]
  rfl

theorem encodeChar_one {v : Nat} (small : v < 0x80) :
    String.utf8EncodeChar (Char.ofNat v) = [UInt8.ofNat v] := by
  dsimp only [String.utf8EncodeChar]
  rw [val_ofNat (.inl (by omega)), if_pos (by omega)]

theorem encodeChar_two {k m : Nat} (low : 2 ≤ k) (high : k < 32) (hm : m < 64) :
    String.utf8EncodeChar (Char.ofNat (k * 64 + m)) =
      [UInt8.ofNat (k + 0xC0), UInt8.ofNat (m + 0x80)] := by
  dsimp only [String.utf8EncodeChar]
  rw [val_ofNat (.inl (by omega)), if_neg (by omega), if_pos (by omega),
    show (k * 64 + m) / 64 % 32 = k by omega, show (k * 64 + m) % 64 = m by omega]

theorem encodeChar_three {k m n : Nat} (high : k < 16) (hm : m < 64) (hn : n < 64)
    (long : k = 0 → 32 ≤ m) (noHalf : k = 13 → m < 32) :
    String.utf8EncodeChar (Char.ofNat ((k * 64 + m) * 64 + n)) =
      [UInt8.ofNat (k + 0xE0), UInt8.ofNat (m + 0x80), UInt8.ofNat (n + 0x80)] := by
  have valid : ((k * 64 + m) * 64 + n).isValidChar := by
    unfold Nat.isValidChar
    omega
  dsimp only [String.utf8EncodeChar]
  rw [val_ofNat valid, if_neg (by omega), if_neg (by omega), if_pos (by omega),
    show ((k * 64 + m) * 64 + n) / 4096 % 16 = k by omega,
    show ((k * 64 + m) * 64 + n) / 64 % 64 = m by omega,
    show ((k * 64 + m) * 64 + n) % 64 = n by omega]

theorem encodeChar_four {k m n l : Nat} (high : k < 5) (hm : m < 64) (hn : n < 64) (hl : l < 64)
    (long : k = 0 → 16 ≤ m) (last : k = 4 → m < 16) :
    String.utf8EncodeChar (Char.ofNat (((k * 64 + m) * 64 + n) * 64 + l)) =
      [UInt8.ofNat (k + 0xF0), UInt8.ofNat (m + 0x80), UInt8.ofNat (n + 0x80),
        UInt8.ofNat (l + 0x80)] := by
  have valid : (((k * 64 + m) * 64 + n) * 64 + l).isValidChar := by
    unfold Nat.isValidChar
    omega
  dsimp only [String.utf8EncodeChar]
  rw [val_ofNat valid, if_neg (by omega), if_neg (by omega), if_neg (by omega),
    show (((k * 64 + m) * 64 + n) * 64 + l) / 262144 % 8 = k by omega,
    show (((k * 64 + m) * 64 + n) * 64 + l) / 4096 % 64 = m by omega,
    show (((k * 64 + m) * 64 + n) * 64 + l) / 64 % 64 = n by omega,
    show (((k * 64 + m) * 64 + n) * 64 + l) % 64 = l by omega]

/-- The first bytes of longer characters. -/
theorem eq_of_lead? {b : UInt8} {p : Partial} (h : lead? b = some p) :
    (∃ k, 2 ≤ k ∧ k < 32 ∧ b = UInt8.ofNat (k + 0xC0)) ∨
      (∃ k < 16, b = UInt8.ofNat (k + 0xE0)) ∨ ∃ k < 5, b = UInt8.ofNat (k + 0xF0) := by
  have shift {base : Nat} (le : base ≤ b.toNat) : b = UInt8.ofNat (b.toNat - base + base) := by
    rw [Nat.sub_add_cancel le, UInt8.ofNat_toNat]
  have low : 0xC2 ≤ b.toNat := by
    by_contra small
    have : b < 0xC2 := UInt8.lt_iff_toNat_lt.2 (Nat.not_le.1 small)
    simp [lead?, this] at h
  have high : b.toNat < 0xF5 := by
    have none : ∀ k < 11, lead? (UInt8.ofNat (k + 0xF5)) = none := by decide
    by_contra large
    have := b.toNat_lt
    rw [shift (Nat.not_lt.1 large), none _ (by omega)] at h
    cases h
  by_cases two : b.toNat < 0xE0
  · exact .inl ⟨_, by omega, by omega, shift (by omega)⟩
  · by_cases three : b.toNat < 0xF0
    · exact .inr (.inl ⟨_, by omega, shift (by omega)⟩)
    · exact .inr (.inr ⟨_, by omega, shift (by omega)⟩)

/-- A character that was begun goes on with a byte in its range. -/
theorem exists_continuation {p : Partial} {i : Nat} {done cs : List Char} {bs : List UInt8}
    (least : 0x80 ≤ p.low.toNat) (greatest : p.high.toNat ≤ 0xBF)
    (h : decodeFrom (some p) i done bs = .ok cs) :
    ∃ k < 64, ∃ rest, bs = UInt8.ofNat (k + 0x80) :: rest ∧
      p.low.toNat ≤ k + 0x80 ∧ k + 0x80 ≤ p.high.toNat ∧
      ∀ more, p.more = more + 1 →
        decodeFrom (some ⟨more, 0x80, 0xBF, p.value * 64 + k, p.seen + 1⟩) i done rest = .ok cs := by
  cases bs with
  | nil =>
    rw [decodeFrom] at h
    cases h
  | cons b rest =>
    have range : p.low ≤ b ∧ b ≤ p.high := by
      by_contra outside
      rw [decodeFrom, if_neg outside] at h
      cases h
    rw [UInt8.le_iff_toNat_le, UInt8.le_iff_toNat_le] at range
    have byte : b = UInt8.ofNat (b.toNat - 0x80 + 0x80) := by
      rw [Nat.sub_add_cancel (by omega), UInt8.ofNat_toNat]
    refine ⟨b.toNat - 0x80, by omega, rest, congrArg (· :: rest) byte, by omega, by omega, ?_⟩
    intro more next
    rw [byte, decodeFrom_next (by omega) next (by omega) (by omega)] at h
    exact h

/-- What is read begins with the bytes of a character. -/
theorem exists_char {b : UInt8} {bs : List UInt8} {i : Nat} {done cs : List Char}
    (h : decodeFrom none i done (b :: bs) = .ok cs) :
    ∃ c rest, b :: bs = String.utf8EncodeChar c ++ rest := by
  by_cases small : b < 0x80
  · refine ⟨Char.ofNat b.toNat, bs, ?_⟩
    rw [encodeChar_one (UInt8.lt_iff_toNat_lt.1 small), UInt8.ofNat_toNat]
    rfl
  · rw [decodeFrom, if_neg small] at h
    rcases lead : lead? b with _ | p
    · rw [lead] at h
      cases h
    rw [lead] at h
    rcases eq_of_lead? lead with ⟨k, low, high, rfl⟩ | ⟨k, high, rfl⟩ | ⟨k, high, rfl⟩
    · rw [lead?_two low high] at lead
      obtain rfl := Option.some.inj lead
      obtain ⟨m, hm, rest, rfl, -⟩ := exists_continuation (by simp) (by simp) h
      exact ⟨_, rest, congrArg (· ++ rest) (encodeChar_two low high hm).symm⟩
    · rw [lead?_three high] at lead
      obtain rfl := Option.some.inj lead
      obtain ⟨m, hm, rest, rfl, above, below, next⟩ := exists_continuation
        (by dsimp only; split_ifs <;> decide) (by dsimp only; split_ifs <;> decide) h
      obtain ⟨n, hn, rest, rfl, -⟩ := exists_continuation (by simp) (by simp) (next 0 rfl)
      have long : k = 0 → 32 ≤ m := fun e => by
        simp [e] at above
        omega
      have noHalf : k = 13 → m < 32 := fun e => by
        simp [e] at below
        omega
      exact ⟨_, rest, congrArg (· ++ rest) (encodeChar_three high hm hn long noHalf).symm⟩
    · rw [lead?_four high] at lead
      obtain rfl := Option.some.inj lead
      obtain ⟨m, hm, rest, rfl, above, below, next⟩ := exists_continuation
        (by dsimp only; split_ifs <;> decide) (by dsimp only; split_ifs <;> decide) h
      obtain ⟨n, hn, rest, rfl, -, -, next⟩ := exists_continuation (by simp) (by simp) (next 1 rfl)
      obtain ⟨l, hl, rest, rfl, -⟩ := exists_continuation (by simp) (by simp) (next 0 rfl)
      have long : k = 0 → 16 ≤ m := fun e => by
        simp [e] at above
        omega
      have last : k = 4 → m < 16 := fun e => by
        simp [e] at below
        omega
      exact ⟨_, rest, congrArg (· ++ rest) (encodeChar_four high hm hn hl long last).symm⟩

theorem decodeFrom_sound {bs : List UInt8} {i : Nat} {done cs : List Char}
    (h : decodeFrom none i done bs = .ok cs) :
    ∃ more, cs = done.reverse ++ more ∧ bs = more.flatMap String.utf8EncodeChar := by
  induction length : bs.length using Nat.strong_induction_on generalizing bs i done with
  | _ n ih =>
    cases bs with
    | nil =>
      rw [decodeFrom] at h
      cases h
      exact ⟨[], by simp, rfl⟩
    | cons b bs =>
      obtain ⟨c, rest, split⟩ := exists_char h
      have shorter : rest.length < n := by
        have pos := c.utf8Size_pos
        rw [← length, split, List.length_append, String.length_utf8EncodeChar]
        omega
      rw [split, decodeFrom_char] at h
      obtain ⟨more, rfl, rfl⟩ := ih rest.length shorter h rfl
      exact ⟨c :: more, by simp, split⟩

/-- **Encoding undoes decoding.** -/
theorem encode_decode {bytes : List UInt8} {s : String} (h : decode bytes = .ok s) :
    encode s = bytes := by
  unfold decode at h
  rcases read : decodeFrom none 0 [] bytes with _ | cs
  · rw [read] at h
    cases h
  rw [read] at h
  cases h
  obtain ⟨more, rfl, rfl⟩ := decodeFrom_sound read
  simp [encode]

/-! ## Zero bytes -/

/-- The part of a text before its first `U+0000`. -/
def upToNul (s : String) : String := String.ofList (s.toList.takeWhile (· ≠ '\x00'))

/-- No character of the text is `U+0000`. -/
def NulFree (s : String) : Prop := '\x00' ∉ s.toList

instance (s : String) : Decidable (NulFree s) := inferInstanceAs (Decidable (¬ _))

theorem upToNul_eq_self {s : String} (h : NulFree s) : upToNul s = s := by
  have all : s.toList.takeWhile (· ≠ '\x00') = s.toList :=
    List.takeWhile_eq_self_iff.2 fun c hc => by
      simpa using fun e : c = '\x00' => h (e ▸ hc)
  rw [upToNul, all, String.ofList_toList]

/-- Only `U+0000` has a zero byte. -/
theorem zero_mem_char {c : Char} : (0 : UInt8) ∈ String.utf8EncodeChar c ↔ c = '\x00' := by
  constructor
  · intro h
    have zero : c.val.toNat = 0 := by
      have range := char_range c
      dsimp only [String.utf8EncodeChar] at h
      generalize c.val.toNat = v at *
      split_ifs at h <;> simp [← UInt8.toNat_inj] at h <;> omega
    exact Char.ext (UInt32.toNat_inj.1 zero)
  · rintro rfl
    decide

theorem takeWhile_chars (cs : List Char) :
    (cs.flatMap String.utf8EncodeChar).takeWhile (· ≠ 0) =
      (cs.takeWhile (· ≠ '\x00')).flatMap String.utf8EncodeChar := by
  induction cs with
  | nil => rfl
  | cons c cs ih =>
    by_cases nul : c = '\x00'
    · subst nul
      rfl
    · have all : ∀ b ∈ String.utf8EncodeChar c, decide (b ≠ 0) = true := by
        intro b hb
        have : b ≠ 0 := fun e => nul (zero_mem_char.1 (e ▸ hb))
        simpa using this
      rw [List.flatMap_cons, List.takeWhile_append_of_pos all, ih,
        List.takeWhile_cons_of_pos (by simpa using nul), List.flatMap_cons]

theorem nulFree_of_zero_notMem {s : String} (h : (0 : UInt8) ∉ encode s) : NulFree s :=
  fun nul => h (List.mem_flatMap.2 ⟨'\x00', nul, zero_mem_char.2 rfl⟩)

/-- The bytes of a text before the first zero byte. -/
theorem takeWhile_encode (s : String) : (encode s).takeWhile (· ≠ 0) = encode (upToNul s) := by
  rw [encode, takeWhile_chars, encode, upToNul, String.toList_ofList]

end DeclArchive.Utf8
