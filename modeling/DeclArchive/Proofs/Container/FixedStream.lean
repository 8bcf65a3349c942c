import DeclArchive.Container.Load
import DeclArchive.Proofs.Container.Save

/-!
# Saves that fail

A save may stop at a forest that breaks its contract, at a number too large for its field or at the end
of a stream of fixed length, when a part of the container is already out. What it leaves is not opened:
the first byte of a stream is the first width of a container, and until the header is written, which is
last, a zero stands there (`Parts.save_stops`). Where the save succeeds the container is all there, and
nothing behind it was touched (`save_fixed`).
-/

namespace DeclArchive

/-- A container is not opened if its first byte, where it has one, is no width. -/
theorem Container.parse_of_head {bytes : Array UInt8}
    (head : ∀ b, bytes[0]? = some b → ¬ (1 ≤ b.toNat ∧ b.toNat ≤ 8)) :
    ∃ cause, parse bytes = .error cause ∧ ∀ fault, cause ≠ .fault fault := by
  unfold parse
  rcases first : bytes[0]? with _ | pointer
  · exact ⟨.malformed 0 .shortHeader, rfl, nofun⟩
  rcases bytes[1]? with _ | count
  · exact ⟨.malformed 0 .shortHeader, rfl, nofun⟩
  have none := head pointer first
  have check : (⟨pointer, count⟩ : Widths).check = .error (.invalidWidth .pointer pointer) := by
    unfold Widths.check
    rw [dif_neg fun valid => none valid.1, if_neg none]
  refine ⟨.invalidWidth .pointer pointer, ?_, nofun⟩
  dsimp only [Image.ofBytes]
  rw [check]
  rfl

/-- A stream of so many bytes of filling, at its front. -/
def Stream.filled (length : Nat) : Stream := .fixed (Array.replicate length 0xEE)

namespace Stream

variable {length : Nat}

theorem takes_filled {n : Nat} : (filled length).Takes n ↔ n ≤ length := by
  show false = true ∨ 0 + n ≤ (Array.replicate length 0xEE).size ↔ _
  rw [Array.size_replicate, Nat.zero_add]
  exact or_iff_right Bool.false_ne_true

theorem head_filled : ∀ b, (filled length).content[0]? = some b → b = 0xEE := by
  show ∀ b, (Array.replicate length (0xEE : UInt8))[0]? = some b → _
  intro b first
  rw [Array.getElem?_replicate] at first
  split_ifs at first
  exact (Option.some.inj first).symm

/-- What is written to the front of such a stream has the rest of the filling behind it. -/
theorem Holds.content_filled {s : Stream} {b : Array UInt8} {position : Nat}
    (holds : s.Holds (filled length) b.toList position) :
    s.content = b ++ Array.replicate (length - b.size) 0xEE := by
  apply Array.toList_inj.1
  rw [holds.content, Array.toList_append, Array.toList_replicate]
  show [] ++ b.toList ++ List.drop (0 + b.toList.length) (Array.replicate length 0xEE).toList = _
  rw [Array.toList_replicate, List.drop_replicate, Nat.zero_add, Array.length_toList,
    List.nil_append]

end Stream

/-- **A save to a stream of fixed length** succeeds if and only if the container can be built and is no
longer than the stream. It then leaves the container and what was behind it; otherwise it leaves
something that is not opened. -/
theorem save_fixed (forest : Forest) (widths : Widths) (length : Nat) :
    let outcome := forest.save widths (.filled length)
    ((∃ summary, outcome.result = .ok summary) ↔
        ∃ b, forest.toBytes widths = .ok b ∧ b.size ≤ length) ∧
      (∀ summary b, outcome.result = .ok summary → forest.toBytes widths = .ok b →
        outcome.stream.content = b ++ Array.replicate (length - b.size) 0xEE) ∧
      ∀ e, outcome.result = .error e →
        ∃ cause, Container.parse outcome.stream.content = .error cause ∧
          ∀ fault, cause ≠ .fault fault := by
  intro outcome
  have inside : (Stream.filled length).position ≤ (Stream.filled length).content.size :=
    Nat.zero_le _
  obtain ⟨b, saves⟩ | fails := forest.saves_or_fails widths inside
  · obtain ⟨summary, result⟩ := saves.result
    have room := Stream.takes_filled.1 saves.stream.room
    refine ⟨⟨fun _ => ⟨b, saves.bytes, room⟩, fun _ => saves.result⟩, fun _ b' _ saved => ?_, ?_⟩
    · obtain rfl := Except.ok.inj (saves.bytes.symm.trans saved)
      exact saves.stream.content_filled
    · intro e error
      exact nomatch result.symm.trans error
  · obtain ⟨e, result⟩ := fails.result
    refine ⟨⟨fun ⟨_, ok⟩ => ?_, ?_⟩, fun _ _ ok => ?_, fun _ _ => ?_⟩
    · exact nomatch result.symm.trans ok
    · rintro ⟨b, saved, room⟩
      exact absurd (Stream.takes_filled.2 room) (fails.full b saved)
    · exact nomatch result.symm.trans ok
    · refine Container.parse_of_head fun b first => ?_
      obtain same | zero := fails.stream
      · rw [show outcome.stream = _ from same] at first
        rw [Stream.head_filled b first]
        decide
      · rw [zero rfl b first]
        decide

end DeclArchive
