import DeclArchive.Proofs.TypeExpr.Cost
import DeclArchive.Proofs.TypeExpr.RoundTrip

/-!
# What was read can be written again

Bytes of any origin that are read as a type give a type that can be written and read again
(`type_rewritten`). It satisfies every limit of the writer but one: with narrow pointers the texts and arrays
that it shares or overlaps in the image may not fit in the reach of a pointer once they are apart. What they
take is bounded, for each text is written once and each array takes no more than the image, so pointers of
eight bytes are always enough for an image of less than two gigabytes.
-/

namespace DeclArchive

open Write

section

variable {im : Image} {w : Writer} {t : TypeExpr} {levels o next : Nat}

/-- A fresh writer that writes what was found stays within a bound that depends on the image alone. -/
theorem TypeExpr.Found.size_write_le (found : t.Found im levels o next) (format : w.format = im.format)
    (empty : w.interned = {}) (small : w.heap.size = 1) :
    (t.write.run.run w).2.heap.size ≤ 1 + im.size * im.size + im.size * im.size + im.size := by
  have spent := TypeExpr.costs_write found.parts w format
  have known : (t.write.run.run w).2.interned.size ≤ im.size := by
    refine size_interned_le fun s hs => (spent.texts s hs).resolve_left ?_
    rw [empty]
    exact Std.HashMap.not_mem_empty
  have run : t.runSize im.format ≤ im.size := by
    have := found.inside
    rw [found.size] at this
    exact (Nat.le_add_left _ _).trans this
  have texts := Nat.mul_le_mul_left im.size known
  have parts := Nat.mul_le_mul_left im.size ((t.length_parts_le im.format).trans run)
  have size := spent.size
  rw [small, empty] at size
  omega

end

/-- A fresh writer of the widths of an image has the format of the image and nothing in its heap. -/
theorem opened_fresh {bytes : Array UInt8} {widths : Widths} {im : Image} {w : Writer}
    (opened : Image.ofBytes bytes widths = .ok im) (fresh : Writer.empty widths = .ok w) :
    im.bytes = bytes ∧ im.format.toWidths = widths ∧ w.format = im.format ∧ w.interned = {} ∧
      w.heap.size = 1 := by
  unfold Image.ofBytes at opened
  unfold Writer.empty at fresh
  obtain ⟨format, check, opened⟩ := Except.bind_eq_ok.1 opened
  obtain ⟨format', check', fresh⟩ := Except.bind_eq_ok.1 fresh
  obtain rfl := Except.ok.inj (check.symm.trans check')
  cases opened
  cases fresh
  exact ⟨rfl, Widths.check_returns check, rfl, rfl, rfl⟩

/-- Pointers of eight bytes reach as far as a square of less than two gigabytes. -/
theorem square_le_largestBlock {n : Nat} (short : n < 0x80000000) :
    1 + n * n + n * n + n ≤ Heap.largestBlock := by
  have square : n * n ≤ 0x7FFFFFFF * 0x7FFFFFFF := Nat.mul_le_mul (by omega) (by omega)
  unfold Heap.largestBlock
  omega

/-- What is in one block of memory is in reach of a pointer of eight bytes. -/
theorem largestBlock_le {widths : Widths} (wide : widths.pointer = 8) :
    Heap.largestBlock ≤ widths.largestOffset := by
  unfold Widths.largestOffset
  rw [wide]
  decide

/-- **What was read can be written again**, by a fresh writer of the same widths, and is read as it was. The
writer may stop at an offset that is out of reach, and at nothing else; with pointers of eight bytes and less
than two gigabytes of bytes it does not stop. The run of the type is as long as the one it was read from.
All bytes are in one block of memory. -/
theorem type_rewritten {bytes : Array UInt8} {widths : Widths} {im : Image} {w : Writer}
    {o next : Offset} {t : TypeExpr} (opened : Image.ofBytes bytes widths = .ok im)
    (fresh : Writer.empty widths = .ok w) (read : readType im o = .ok (t, next)) :
    (∀ e w', Stops t.write w e w' → ∃ target, e = .offsetOverflow target widths.pointer) ∧
      (widths.pointer = 8 → bytes.size < 0x80000000 →
        ∃ s w', Returns t.write w s w' ∧ w'.heap.size ≤ Heap.largestBlock) ∧
      ∀ s w', Returns t.write w s w' → w'.heap.size ≤ Heap.largestBlock →
        readType ⟨w'.heap.bytes, im.format⟩ s = .ok (t, w'.heap.size) ∧
          o + t.runSize im.format = next ∧ s + t.runSize im.format = w'.heap.size := by
  have sound := Writer.sound_empty fresh
  obtain ⟨rfl, rfl, format, empty, small⟩ := opened_fresh opened fresh
  have found := readTypeWithin_found read
  have reaches : Reaches none Inside t.write w := by
    rw [← found.few]
    exact TypeExpr.reaches_write fun p hp => by
      rw [format]
      exact (found.parts p hp).length_le
  have stopped {e : Error} {w' : Writer} (stop : Stops t.write w e w') :
      w'.format = im.format ∧ OutOfReach e w' := by
    have run := reaches sound
    rw [stop] at run
    exact ⟨run.1.format.trans format, run.2.resolve_left nofun⟩
  refine ⟨fun e w' stop => ?_, fun wide short => ?_, fun s w' run fits => ?_⟩
  · obtain ⟨format', target, rfl, -⟩ := stopped stop
    exact ⟨target, by rw [format']⟩
  · have bound := (found.size_write_le format empty small).trans (square_le_largestBlock short)
    rcases returns_or_stops t.write w with ⟨s, w', run⟩ | ⟨e, w', stop⟩
    · rw [run] at bound
      exact ⟨s, w', run, bound⟩
    · obtain ⟨format', target, -, large, inside⟩ := stopped stop
      rw [stop] at bound
      rw [format'] at large
      exact absurd (large.trans_le (inside.trans bound)) (largestBlock_le wide).not_gt
  · have inside : w'.In ⟨w'.heap.bytes, im.format⟩ :=
      ⟨(format.symm.trans (t.grows_write.of_returns run).format.symm), List.prefix_rfl, fits⟩
    have plain : ∀ s ∈ t.texts, Utf8.NulFree s := by
      intro s hs
      obtain ⟨p, hp, hs⟩ := List.mem_flatMap.1 hs
      obtain ⟨o, text⟩ := (found.parts p hp).texts s hs
      exact (Image.text_eq_ok text).1
    refine ⟨TypeExpr.write_reads sound run inside found.low plain, found.size.symm, ?_⟩
    rw [← format]
    exact TypeExpr.write_size run

namespace Sample

/-- A record at 1 whose two names, at 29 and 30, share their last byte, and whose first field has an array
of no protocols that lies inside the pointer at 3. -/
def overlapping : Array UInt8 :=
  #[0, 30, 2, 29, 0, 0, 0, 0, 0, 0, 0, 30, 0, 0, 0, 0, 0, 0, 0, 25, 4, 0, 0, 0, 0, 0, 0, 0, 4, 97, 98, 0]

/-- What is read there. -/
def pair : TypeExpr :=
  .anonymous .struct [⟨"ab", .object .id []⟩, ⟨"b", .scalar .int⟩]

/-- Eight bytes for an offset and one for a count. -/
def long : Format := ⟨⟨8, 1⟩, by decide⟩

set_option maxRecDepth 4000 in
theorem readType_overlapping : readType ⟨overlapping, long⟩ 1 = .ok (pair, 29) := rfl

end Sample

/-- Names that overlap are written apart, and the same type is read from them. -/
theorem type_rewritten_overlapping :
    ∃ (im : Image) (w : Writer) (s : Offset) (w' : Writer),
      Image.ofBytes Sample.overlapping ⟨8, 1⟩ = .ok im ∧ Writer.empty ⟨8, 1⟩ = .ok w ∧
        readType im 1 = .ok (Sample.pair, 29) ∧ Returns Sample.pair.write w s w' ∧
          readType ⟨w'.heap.bytes, im.format⟩ s = .ok (Sample.pair, w'.heap.size) ∧
            s + 28 = w'.heap.size := by
  obtain ⟨-, writable, codec⟩ := @type_rewritten Sample.overlapping ⟨8, 1⟩
    ⟨Sample.overlapping, Sample.long⟩ { format := Sample.long } 1 29 Sample.pair rfl rfl
    Sample.readType_overlapping
  obtain ⟨s, w', run, fits⟩ := writable rfl (by decide)
  obtain ⟨read, size, size'⟩ := codec s w' run fits
  have length : Sample.pair.runSize Sample.long = 28 := Nat.add_left_cancel size
  rw [length] at size'
  exact ⟨_, _, s, w', rfl, rfl, Sample.readType_overlapping, run, read, size'⟩

end DeclArchive
