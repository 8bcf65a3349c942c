import DeclArchive.Proofs.Found
import DeclArchive.Proofs.Utf8.Flaws

/-!
# Which bytes are a text

A text is read at a position exactly where its bytes are, with a zero byte behind them and none inside.
Everywhere else the reader says why there is none (`Image.NoText`), and looks for a reason in one
order: a null offset, a position past the end, no zero byte, bytes that are not UTF-8
(`Image.text_exact`).
-/

namespace DeclArchive.Image

variable {im : Image} {o : Nat}

/-- Why there is no text at `o`. -/
inductive NoText (im : Image) (o : Offset) : Malformed → Prop where
  | null (null : o = 0) : NoText im o .nullText
  | pastEnd (present : o ≠ 0) (past : im.size ≤ o) : NoText im o (.tooFewBytes 1 im.size)
  | unterminated (present : o ≠ 0) (inside : o < im.size) (zeroFree : 0 ∉ im.bytes.toList.drop o) :
    NoText im o .unterminatedText
  | notUtf8 {raw : List UInt8} {flaw : Utf8.Flaw} (present : o ≠ 0) (zeroFree : 0 ∉ raw)
    (there : im.Has o (raw ++ [0])) (flawed : flaw.Describes raw) : NoText im o (.notUtf8 flaw)

theorem text_of_pastEnd (present : o ≠ 0) (past : im.size ≤ o) :
    im.text o = .error (.malformed o (.tooFewBytes 1 im.size)) := by
  have notNull : Offset.isNull o = false := by simpa [Offset.isNull] using present
  have noByte : ¬ o + 1 ≤ im.size := by omega
  have none : im.bytesAt o 1 = .error (.malformed o (.tooFewBytes 1 im.size)) := if_neg noByte
  unfold text
  simp only [notNull, none]
  rfl

/-- Inside the image a text is what is before the first zero byte. -/
theorem text_of_inside (present : o ≠ 0) (inside : o < im.size) :
    im.text o = (im.untilZero o >>= fun raw? =>
      match raw? with
      | none => .error (.malformed o .unterminatedText)
      | some raw =>
        match Utf8.decode raw with
        | .error flaw => .error (.malformed o (.notUtf8 flaw))
        | .ok s => .ok s) := by
  have notNull : Offset.isNull o = false := by simpa [Offset.isNull] using present
  have one : im.bytesAt o 1 = .ok (im.bytes.extract o (o + 1)).toList := if_pos inside
  unfold text
  simp only [notNull, one, Except.ok_bind]
  rfl

theorem untilZero_of_zeroFree (inside : o < im.size) (zeroFree : 0 ∉ im.bytes.toList.drop o) :
    im.untilZero o = .ok none := by
  rw [untilZero, if_neg (by omega)]
  rcases found : im.scan (im.size - o) o [] with _ | raw
  · rfl
  · obtain ⟨bytes, after, -, -, there⟩ := scan_eq_some found
    exact (zeroFree (there ▸ by simp)).elim

theorem untilZero_of_raw {raw : List UInt8} (zeroFree : 0 ∉ raw) (there : im.Has o (raw ++ [0])) :
    im.untilZero o = .ok (some raw) := by
  rw [untilZero_of_has there, List.takeWhile_eq_self_iff.2]
  intro b mem
  simpa using fun e : b = 0 => zeroFree (e ▸ mem)

theorem text_of_noText {reason : Malformed} (h : im.NoText o reason) :
    im.text o = .error (.malformed o reason) := by
  cases h with
  | null null =>
    subst null
    rfl
  | pastEnd present past => exact text_of_pastEnd present past
  | unterminated present inside zeroFree =>
    rw [text_of_inside present inside, untilZero_of_zeroFree inside zeroFree]
    rfl
  | notUtf8 present zeroFree there flawed =>
    have inside := there.size_le (by simp)
    rw [List.length_append, List.length_singleton] at inside
    rw [text_of_inside present (by omega), untilZero_of_raw zeroFree there, Except.ok_bind]
    dsimp only
    rw [Utf8.decode_eq_error.2 flawed]

/-- There is a text, or a reason why not. -/
theorem reads_or_noText (im : Image) (o : Offset) :
    (∃ s, im.text o = .ok s) ∨ ∃ reason, im.NoText o reason := by
  by_cases null : o = 0
  · exact .inr ⟨_, .null null⟩
  by_cases inside : im.size ≤ o
  · exact .inr ⟨_, .pastEnd null inside⟩
  rw [Nat.not_le] at inside
  by_cases zero : 0 ∈ im.bytes.toList.drop o
  · obtain ⟨raw, after, split, zeroFree⟩ := List.eq_append_cons_of_mem zero
    have there : im.Has o (raw ++ [0]) := ⟨after, by rw [split, List.append_assoc]; rfl⟩
    rcases decoded : Utf8.decode raw with flaw | s
    · exact .inr ⟨_, .notUtf8 null zeroFree there (Utf8.decode_eq_error.1 decoded)⟩
    · refine .inl ⟨s, ?_⟩
      rw [text_of_inside null inside, untilZero_of_raw zeroFree there, Except.ok_bind]
      dsimp only
      rw [decoded]
  · exact .inr ⟨_, .unterminated null inside zero⟩

/-- **A text is read exactly where it is**, and elsewhere the reader says exactly why there is none. -/
theorem text_exact (im : Image) (o : Offset) :
    (∀ s, im.text o = .ok s ↔ o ≠ 0 ∧ Utf8.NulFree s ∧ im.Has o (Utf8.encode s ++ [0])) ∧
      ∀ e, im.text o = .error e ↔ ∃ reason, e = .malformed o reason ∧ im.NoText o reason := by
  constructor
  · intro s
    constructor
    · intro read
      refine ⟨?_, text_eq_ok read⟩
      rintro rfl
      cases read
    · rintro ⟨present, nulFree, there⟩
      rw [text_of_has present there, Utf8.upToNul_eq_self nulFree]
  · intro e
    constructor
    · intro failed
      obtain ⟨s, read⟩ | ⟨reason, none⟩ := reads_or_noText im o
      · rw [read] at failed
        cases failed
      · rw [text_of_noText none] at failed
        exact ⟨reason, (Except.error.inj failed).symm, none⟩
    · rintro ⟨reason, rfl, none⟩
      exact text_of_noText none

end DeclArchive.Image
