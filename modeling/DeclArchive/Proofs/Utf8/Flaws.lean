import DeclArchive.Proofs.Utf8
import Mathlib.Order.Bounds.Basic

/-!
# What the flaw of a text says

Bytes that are no text have one flaw, and decoding finds it (`decode_eq_error`). `Flaw.Describes` says
what it is: the characters before it are the longest beginning of the bytes that is a text, and the bytes
from it on begin no character, unless they end inside one.

1. One byte is refused, goes on with the character in hand or ends it (`decodeFrom_cons`).
2. So the bytes before a flaw are those of characters (`decodeFrom_split`), and decoding never goes back
   behind a character (`le_index`).
3. Bytes that are refused begin no character, whatever may follow them (`not_begins_of_invalid`). Bytes
   that end inside one can be completed (`begins_of_incomplete`).
-/

namespace DeclArchive.Utf8

/-! ## Flaws -/

/-- Where the character at fault begins. -/
def Flaw.index : Flaw → Nat
  | .incomplete index => index
  | .invalid _ index => index

/-- Some character begins with these bytes. -/
def Begins (bytes : List UInt8) : Prop := ∃ c, bytes <+: String.utf8EncodeChar c

/-- What the flaw of these bytes is. -/
structure Flaw.Describes (flaw : Flaw) (bytes : List UInt8) : Prop where
  /-- The bytes before the flaw are the longest beginning that is a text. -/
  longest : IsGreatest {k | k ≤ bytes.length ∧ ∃ s, encode s = bytes.take k} flaw.index
  /-- There are bytes behind them. -/
  short : flaw.index < bytes.length
  /-- These are incomplete if they are a proper beginning of a character. -/
  incomplete : flaw = .incomplete flaw.index ↔
    ∃ c, bytes.drop flaw.index <+: String.utf8EncodeChar c ∧
      bytes.drop flaw.index ≠ String.utf8EncodeChar c
  /-- Otherwise the flaw counts the bytes that begin a character, or one byte if none does. -/
  length : ∀ n, flaw = .invalid n flaw.index →
    1 ≤ n ∧ (n = 1 ∨ Begins ((bytes.drop flaw.index).take n)) ∧
      ¬ Begins ((bytes.drop flaw.index).take (n + 1))

theorem Begins.of_prefix {xs ys : List UInt8} (h : Begins ys) (le : xs <+: ys) : Begins xs :=
  h.imp fun _ => le.trans

/-! ## One byte -/

/-- The bytes of the character in hand. -/
def seen : State → Nat
  | none => 0
  | some p => p.seen

/-- The state is one that decoding can be in: a byte was read, and some byte goes on. -/
def Proper : State → Prop
  | none => True
  | some p => 1 ≤ p.seen ∧ p.low ≤ p.high

theorem proper_none : Proper none := trivial

theorem proper_of_lead? {b : UInt8} {p : Partial} (h : lead? b = some p) :
    p.seen = 1 ∧ p.low ≤ p.high := by
  unfold lead? at h
  dsimp only at h
  split_ifs at h <;> cases h <;> exact ⟨rfl, by dsimp only; decide⟩

variable {st : State} {i n j : Nat} {done cs : List Char} {bs more : List UInt8} {flaw : Flaw}

/-- At the end of the bytes only a character in hand is a flaw. -/
theorem decodeFrom_nil (h : decodeFrom st i done [] = .error flaw) :
    ∃ p, st = some p ∧ flaw = .incomplete i := by
  cases st with
  | none =>
    rw [decodeFrom] at h
    cases h
  | some p =>
    rw [decodeFrom] at h
    cases h
    exact ⟨p, rfl, rfl⟩

/-- What one byte does, whatever follows it. -/
theorem decodeFrom_cons (proper : Proper st) (i : Nat) (done : List Char) (b : UInt8) :
    (∀ bs, decodeFrom st i done (b :: bs) = .error (.invalid (max 1 (seen st)) i)) ∨
      (∃ p, Proper (some p) ∧ p.seen = seen st + 1 ∧
        ∀ bs, decodeFrom st i done (b :: bs) = decodeFrom (some p) i done bs) ∨
      ∃ done', ∀ bs, decodeFrom st i done (b :: bs) = decodeFrom none (i + seen st + 1) done' bs := by
  cases st with
  | none =>
    by_cases small : b < 0x80
    · exact .inr (.inr ⟨_, fun bs => by rw [decodeFrom, if_pos small]; rfl⟩)
    · rcases lead : lead? b with _ | p
      · exact .inl fun bs => by rw [decodeFrom, if_neg small, lead]; rfl
      · obtain ⟨one, range⟩ := proper_of_lead? lead
        exact .inr (.inl ⟨p, ⟨one.ge, range⟩, one, decodeFrom_lead lead i done⟩)
  | some p =>
    by_cases range : p.low ≤ b ∧ b ≤ p.high
    · rcases last : p.more with _ | more
      · exact .inr (.inr ⟨_, fun bs => by rw [decodeFrom, if_pos range, last]; rfl⟩)
      · refine .inr (.inl ⟨⟨more, 0x80, 0xBF, p.value * 64 + (b &&& 0x3F).toNat, p.seen + 1⟩,
          ⟨Nat.le_add_left 1 _, by dsimp only; decide⟩, rfl, fun bs => ?_⟩)
        rw [decodeFrom, if_pos range, last]
    · refine .inl fun bs => ?_
      rw [decodeFrom, if_neg range, seen, Nat.max_eq_right proper.1]

/-! ## Where decoding stops -/

theorem le_index (proper : Proper st) (h : decodeFrom st i done bs = .error flaw) : i ≤ flaw.index := by
  induction bs generalizing st i done with
  | nil =>
    obtain ⟨_, -, rfl⟩ := decodeFrom_nil h
    exact Nat.le_refl i
  | cons b bs ih =>
    rcases decodeFrom_cons proper i done b with refused | ⟨p, proper', -, goesOn⟩ | ⟨done', ends⟩
    · rw [refused] at h
      cases h
      exact Nat.le_refl i
    · exact ih proper' (goesOn bs ▸ h)
    · have := ih proper_none (ends bs ▸ h)
      omega

/-- Either the character in hand is at fault, or the bytes go on past it. -/
theorem index_eq_or (proper : Proper st) (h : decodeFrom st i done bs = .error flaw) :
    flaw.index = i ∨ ∃ first rest cs,
      bs = first ++ rest ∧ first ≠ [] ∧ decodeFrom st i done first = .ok cs := by
  induction bs generalizing st done with
  | nil =>
    obtain ⟨_, -, rfl⟩ := decodeFrom_nil h
    exact .inl rfl
  | cons b bs ih =>
    rcases decodeFrom_cons proper i done b with refused | ⟨p, proper', -, goesOn⟩ | ⟨done', ends⟩
    · rw [refused] at h
      cases h
      exact .inl rfl
    · refine (ih proper' (goesOn bs ▸ h)).imp_right ?_
      rintro ⟨first, rest, cs, rfl, -, read⟩
      exact ⟨b :: first, rest, cs, rfl, List.cons_ne_nil _ _, goesOn first ▸ read⟩
    · exact .inr ⟨[b], bs, _, rfl, List.cons_ne_nil _ _, by rw [ends, decodeFrom]⟩

/-- The characters of a text are read, and then what follows them. -/
theorem decodeFrom_text (cs : List Char) (i : Nat) (done : List Char) (bs : List UInt8) :
    decodeFrom none i done (cs.flatMap String.utf8EncodeChar ++ bs) =
      decodeFrom none (i + (cs.flatMap String.utf8EncodeChar).length) (cs.reverse ++ done) bs := by
  induction cs generalizing i done with
  | nil => rfl
  | cons c cs ih =>
    rw [List.flatMap_cons, List.append_assoc, decodeFrom_char, ih, List.length_append,
      String.length_utf8EncodeChar, List.reverse_cons, List.append_assoc, Nat.add_assoc]
    rfl

/-- Before a flaw there are characters, and at the flaw there is none. -/
theorem decodeFrom_split (h : decodeFrom none i done bs = .error flaw) :
    ∃ (cs : List Char) (rest : List UInt8) (done' : List Char),
      bs = cs.flatMap String.utf8EncodeChar ++ rest ∧
        flaw.index = i + (cs.flatMap String.utf8EncodeChar).length ∧
          decodeFrom none flaw.index done' rest = .error flaw := by
  induction length : bs.length using Nat.strong_induction_on generalizing bs i done with
  | _ n ih =>
    rcases index_eq_or proper_none h with here | ⟨first, rest, read, rfl, ne, ok⟩
    · exact ⟨[], bs, done, rfl, here, here ▸ h⟩
    · obtain ⟨cs, -, rfl⟩ := decodeFrom_sound ok
      rw [decodeFrom_text] at h
      have pos := List.length_pos_iff.2 ne
      rw [List.length_append] at length
      obtain ⟨cs', rest, done', rfl, index, flawed⟩ := ih rest.length (by omega) h rfl
      refine ⟨cs ++ cs', rest, done', ?_, ?_, flawed⟩
      · rw [List.flatMap_append, List.append_assoc]
      · rw [List.flatMap_append, List.length_append, index, Nat.add_assoc]

/-! ## What is refused -/

/-- Bytes that are refused are refused whatever follows them. -/
theorem decodeFrom_append_invalid (proper : Proper st)
    (h : decodeFrom st i done bs = .error (.invalid n j)) (more : List UInt8) :
    decodeFrom st i done (bs ++ more) = .error (.invalid n j) := by
  induction bs generalizing st i done with
  | nil =>
    obtain ⟨_, -, kind⟩ := decodeFrom_nil h
    cases kind
  | cons b bs ih =>
    rw [List.cons_append]
    rcases decodeFrom_cons proper i done b with refused | ⟨p, proper', -, goesOn⟩ | ⟨done', ends⟩
    · rw [refused] at h ⊢
      exact h
    · rw [goesOn] at h ⊢
      exact ih proper' h
    · rw [ends] at h ⊢
      exact ih proper_none h

theorem not_begins_of_invalid (h : decodeFrom none i done bs = .error (.invalid n j)) :
    ¬ Begins bs := by
  rintro ⟨c, more, char⟩
  have read := decodeFrom_char c i done []
  rw [← char, List.append_nil, decodeFrom_append_invalid proper_none h more, decodeFrom] at read
  cases read

/-! ## What is incomplete -/

/-- A character in hand can be completed. -/
theorem exists_completion {p : Partial} (proper : Proper (some p)) (i : Nat) (done : List Char) :
    ∃ more cs, decodeFrom (some p) i done more = .ok cs := by
  obtain ⟨left, low, high, value, count⟩ := p
  have range : low ≤ low ∧ low ≤ high := ⟨UInt8.le_refl low, proper.2⟩
  induction left generalizing low high value count with
  | zero =>
    refine ⟨[low], (Char.ofNat (value * 64 + (low &&& 0x3F).toNat) :: done).reverse, ?_⟩
    rw [decodeFrom, if_pos range]
    rfl
  | succ left ih =>
    have next : Proper (some ⟨left, 0x80, 0xBF, value * 64 + (low &&& 0x3F).toNat, count + 1⟩) :=
      ⟨Nat.le_add_left 1 _, by dsimp only; decide⟩
    obtain ⟨more, cs, read⟩ := ih _ _ _ _ next ⟨UInt8.le_refl _, next.2⟩
    exact ⟨low :: more, cs, by rw [decodeFrom, if_pos range]; exact read⟩

/-- Bytes that end inside a character can be completed. -/
theorem exists_more_of_incomplete (proper : Proper st)
    (h : decodeFrom st i done bs = .error (.incomplete j)) :
    ∃ more cs, decodeFrom st i done (bs ++ more) = .ok cs := by
  induction bs generalizing st i done with
  | nil =>
    obtain ⟨p, rfl, -⟩ := decodeFrom_nil h
    exact exists_completion proper i done
  | cons b bs ih =>
    rcases decodeFrom_cons proper i done b with refused | ⟨p, proper', -, goesOn⟩ | ⟨done', ends⟩
    · rw [refused] at h
      cases h
    · obtain ⟨more, cs, read⟩ := ih proper' (goesOn bs ▸ h)
      exact ⟨more, cs, by rw [List.cons_append, goesOn, read]⟩
    · obtain ⟨more, cs, read⟩ := ih proper_none (ends bs ▸ h)
      exact ⟨more, cs, by rw [List.cons_append, ends, read]⟩

/-- Bytes that end inside their first character are a proper beginning of one. -/
theorem begins_of_incomplete (h : decodeFrom none i done bs = .error (.incomplete i)) :
    ∃ c, bs <+: String.utf8EncodeChar c ∧ bs ≠ String.utf8EncodeChar c := by
  obtain ⟨more, cs, read⟩ := exists_more_of_incomplete proper_none h
  rcases bs with _ | ⟨b, bs⟩
  · obtain ⟨_, none, -⟩ := decodeFrom_nil h
    cases none
  obtain ⟨c, rest, split⟩ := exists_char read
  -- the bytes do not go past the character, or the flaw would be behind it
  have inside : ¬ String.utf8EncodeChar c <+: b :: bs := by
    rintro ⟨behind, whole⟩
    rw [← whole, decodeFrom_char] at h
    have pos := c.utf8Size_pos
    have le : i + c.utf8Size ≤ i := le_index proper_none h
    omega
  have begins : b :: bs <+: String.utf8EncodeChar c :=
    (List.prefix_or_prefix_of_prefix ⟨more, rfl⟩ ⟨rest, split.symm⟩).resolve_right inside
  exact ⟨c, begins, fun e => inside (e ▸ List.prefix_refl _)⟩

/-! ## How much is refused -/

/-- The bytes that a flaw counts were all read as one character, unless it is the first one that is
refused, and the byte behind them is refused. -/
theorem decodeFrom_take (proper : Proper st) (h : decodeFrom st i done bs = .error (.invalid n i)) :
    seen st ≤ n ∧ 1 ≤ n ∧
      decodeFrom st i done (bs.take (n + 1 - seen st)) = .error (.invalid n i) ∧
      (n = 1 ∨ decodeFrom st i done (bs.take (n - seen st)) = .error (.incomplete i)) := by
  induction bs generalizing st done with
  | nil =>
    obtain ⟨_, -, kind⟩ := decodeFrom_nil h
    cases kind
  | cons b bs ih =>
    rcases decodeFrom_cons proper i done b with refused | ⟨p, proper', count, goesOn⟩ | ⟨done', ends⟩
    · cases st with
      | none =>
        rw [refused] at h
        cases h
        exact ⟨by decide, by decide, refused _, .inl rfl⟩
      | some p =>
        rw [seen, Nat.max_eq_right proper.1] at refused
        rw [refused] at h
        cases h
        rw [seen, Nat.add_sub_cancel_left, Nat.sub_self]
        exact ⟨Nat.le_refl _, proper.1, refused [], .inr (by rw [List.take_zero, decodeFrom])⟩
    · obtain ⟨le, pos, refused, read⟩ := ih proper' (goesOn bs ▸ h)
      rw [seen, count] at le refused read
      rw [show n + 1 - seen st = n + 1 - (seen st + 1) + 1 by omega,
        show n - seen st = n - (seen st + 1) + 1 by omega, List.take_succ_cons, List.take_succ_cons,
        goesOn, goesOn]
      exact ⟨by omega, pos, refused, read⟩
    · -- a flaw is not behind a character and in it
      have : i + seen st + 1 ≤ i := le_index proper_none (ends bs ▸ h)
      omega

/-! ## The flaw of bytes that are no text -/

theorem describes_of_decode {bytes : List UInt8} (h : decode bytes = .error flaw) :
    flaw.Describes bytes := by
  have read : decodeFrom none 0 [] bytes = .error flaw := by
    unfold decode at h
    rcases read : decodeFrom none 0 [] bytes with flaw' | cs
    · rw [read] at h
      cases h
      rfl
    · rw [read] at h
      cases h
  obtain ⟨cs, rest, done, rfl, index, flawed⟩ := decodeFrom_split read
  rw [Nat.zero_add] at index
  have behind : (cs.flatMap String.utf8EncodeChar ++ rest).drop flaw.index = rest := by
    rw [index, List.drop_left]
  have ne : rest ≠ [] := by
    rintro rfl
    obtain ⟨_, none, -⟩ := decodeFrom_nil flawed
    cases none
  constructor
  · constructor
    · refine ⟨?_, String.ofList cs, ?_⟩
      · rw [index, List.length_append]
        exact Nat.le_add_right ..
      · rw [index, List.take_left, encode, String.toList_ofList]
    · rintro k ⟨le, s, text⟩
      -- a longer text would have been read before the flaw
      have length : (encode s).length = k := by rw [text, List.length_take_of_le le]
      rw [← List.take_append_drop k (cs.flatMap _ ++ rest), ← text, encode, decodeFrom_text] at read
      have := le_index proper_none read
      rw [← length, encode]
      omega
  · rw [index, List.length_append]
    exact Nat.lt_add_of_pos_right (List.length_pos_iff.2 ne)
  · rw [behind]
    cases flaw with
    | incomplete i => exact iff_of_true rfl (begins_of_incomplete flawed)
    | invalid n i =>
      refine iff_of_false (fun kind => ?_) ?_
      · cases kind
      · rintro ⟨c, begins, -⟩
        exact not_begins_of_invalid flawed ⟨c, begins⟩
  · rw [behind]
    intro n kind
    rw [kind] at flawed
    obtain ⟨-, pos, refused, read⟩ := decodeFrom_take proper_none flawed
    exact ⟨pos, read.imp_right fun h => (begins_of_incomplete h).imp fun _ => And.left,
      not_begins_of_invalid refused⟩

/-- A flaw counts no byte behind one that no character goes on with. -/
theorem count_le {m : Nat} (counted : m = 1 ∨ Begins (bs.take m)) (pos : 1 ≤ n)
    (refused : ¬ Begins (bs.take (n + 1))) : m ≤ n := by
  by_contra more
  obtain rfl | begins := counted
  · omega
  · exact refused (begins.of_prefix (List.take_prefix_take_left (by omega)))

/-- Bytes have one flaw. -/
theorem Flaw.Describes.unique {bytes : List UInt8} {flaw' : Flaw} (h : flaw.Describes bytes)
    (h' : flaw'.Describes bytes) : flaw = flaw' := by
  have index := h.longest.unique h'.longest
  have kind : flaw = .incomplete flaw.index ↔ flaw' = .incomplete flaw'.index := by
    rw [h.incomplete, h'.incomplete, index]
  cases flaw with
  | incomplete i => exact (congrArg Flaw.incomplete index).trans (kind.1 rfl).symm
  | invalid n i =>
    cases flaw' with
    | incomplete i' => exact (kind.2 rfl).trans (congrArg Flaw.incomplete index)
    | invalid n' i' =>
      obtain rfl : i = i' := index
      obtain ⟨pos, counted, refused⟩ := h.length n rfl
      obtain ⟨pos', counted', refused'⟩ := h'.length n' rfl
      rw [Nat.le_antisymm (count_le counted pos' refused') (count_le counted' pos refused)]

theorem decode_eq_error {bytes : List UInt8} : decode bytes = .error flaw ↔ flaw.Describes bytes := by
  refine ⟨describes_of_decode, fun h => ?_⟩
  rcases read : decode bytes with flaw' | s
  · rw [(describes_of_decode read).unique h]
  · -- a text has no flaw, because all of it is a text
    have all := h.longest.2 ⟨Nat.le_refl bytes.length, s, by rw [encode_decode read, List.take_length]⟩
    have := h.short
    omega

/-- A surrogate is refused at its second byte; a character without its last byte is incomplete. -/
example : decode [0x61, 0xED, 0xA0, 0x80] = .error (.invalid 1 1) ∧
    decode [0x61, 0xE2, 0x82] = .error (.incomplete 1) :=
  ⟨rfl, rfl⟩

end DeclArchive.Utf8
