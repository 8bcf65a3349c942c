import DeclArchive.Container.Load
import DeclArchive.Proofs.Safety
import Mathlib.Algebra.Group.Nat.Defs

/-!
# Opening any bytes

Whatever bytes are opened as a container, and whatever it is asked for afterwards, the answer is a
result or an error (`loader_faultless`). The bytes fit one block of memory, and so does the heap, which
is the end of them (`Container.parse_safe`); a container has slots before a bucket is picked
(`Container.slot_safe`).
-/

namespace DeclArchive

theorem Widths.check_safe (w : Widths) : Faultless w.check := by
  unfold Widths.check
  split_ifs <;> rintro f ⟨⟩

theorem Image.ofBytes_safe (bytes : Array UInt8) (w : Widths) :
    Safe (Image.ofBytes bytes w) fun im => im.size = bytes.size := by
  unfold Image.ofBytes
  exact w.check_safe.safe.bind fun f _ => safe_ok rfl

namespace Container

/-! ## Opening -/

theorem parse_safe {b : Array UInt8} (fits : b.size ≤ Heap.largestBlock) :
    Safe (parse b) fun c => c.heap.Fits := by
  unfold parse
  rcases b[0]? with _ | pointerWidth
  · exact safe_malformed 0 _
  rcases b[1]? with _ | countWidth
  · exact safe_malformed 0 _
  dsimp only
  refine (Image.ofBytes_safe b _).bind ?_
  intro file whole
  have fits : file.Fits := by
    unfold Image.Fits
    rwa [whole]
  refine (file.pointer_safe 2).bind ?_
  intro moduleTable here
  refine (Image.pastPointer_safe fits (Nat.le_of_add_right_le here)).bind ?_
  intro o _
  refine (file.pointer_safe o).bind ?_
  intro globalTable here
  refine (Image.pastPointer_safe fits (Nat.le_of_add_right_le here)).bind ?_
  intro o _
  refine (file.pointer_safe o).bind ?_
  intro heapStart _
  by_cases past : b.size ≤ heapStart
  · rw [if_pos past]
    exact safe_malformed heapStart _
  rw [if_neg past]
  -- a heap that starts in the file is no longer than the file
  have inside : heapStart ≤ file.size := by
    rw [whole]
    exact Nat.le_of_not_le past
  refine (Image.tail_safe inside).bind ?_
  intro heap less
  refine (Image.array_safe fits moduleTable).safe.bind ?_
  intro names _
  refine (heap.texts_safe names).safe.bind ?_
  intro modules _
  refine (Image.array_safe fits globalTable).safe.bind ?_
  intro slots _
  exact safe_ok (less.trans fits)

/-! ## Queries -/

variable {c : Container}

theorem slot_safe (some : ¬ c.slots.isEmpty = true) (name : String) : Faultless (c.slot name) := by
  have pos : 0 < c.slots.size := by
    rw [Array.isEmpty_iff_size_eq_zero] at some
    exact Nat.pos_of_ne_zero some
  have found := Array.getElem?_eq_getElem (bucketOf_lt pos name)
  unfold slot bucketIn
  rw [if_neg pos.ne', Except.ok_bind, found]
  exact faultless_ok _

variable (fits : c.heap.Fits)

include fits

theorem records_safe : Faultless c.records := by
  unfold records
  refine (Faultless.mapM (Image.arrayOrEmpty_safe fits) _).bind ?_
  intro chains
  exact faultless_ok chains.flatten

theorem declaration_safe (record : Nat) : Faultless (c.declaration record) := by
  unfold declaration
  refine (Image.base_safe fits record).bind_faultless ?_
  rintro ⟨base, o⟩ inside
  dsimp only
  rcases c.modules[base.moduleIndex.toNat]? with _ | module
  · exact faultless_malformed record _
  · exact (Image.body_safe fits record inside _).bind fun body => faultless_ok _

theorem declarations_safe : Faultless c.declarations := by
  unfold declarations
  exact (records_safe fits).bind fun records => .mapM (declaration_safe fits) records

theorem firstNamed_safe (name : String) (records : List Offset) :
    Faultless (c.firstNamed name records) := by
  induction records with
  | nil => exact faultless_ok none
  | cons record rest ih =>
    rw [firstNamed]
    refine (Image.names_safe fits record).bind_faultless ?_
    rintro ⟨publicName, internal⟩ -
    by_cases same : publicName = name
    · dsimp only
      rw [if_pos same]
      exact faultless_ok (some record)
    · dsimp only
      rw [if_neg same]
      exact ih

theorem lookup_safe (name : String) : Faultless (c.lookup name) := by
  unfold lookup
  by_cases none : c.slots.isEmpty = true
  · rw [if_pos none]
    exact faultless_ok _
  · rw [if_neg none]
    refine (slot_safe none name).bind ?_
    intro slot
    refine (Image.arrayOrEmpty_safe fits slot).bind ?_
    intro records
    exact firstNamed_safe fits name records

theorem resolve_safe (name : String) : Faultless (c.resolve name) := by
  unfold resolve
  refine (lookup_safe fits name).bind ?_
  intro found?
  rcases found? with _ | record
  · rintro f ⟨⟩
  · exact faultless_ok record

theorem find_safe (name : String) : Faultless (c.find name) := by
  unfold find
  refine (lookup_safe fits name).bind ?_
  intro found?
  rcases found? with _ | record
  · exact faultless_ok none
  · exact (declaration_safe fits record).bind fun d => faultless_ok (some d)

theorem checkReferences_safe : Faultless c.checkReferences := by
  unfold checkReferences
  refine (records_safe fits).bind ?_
  intro records
  refine .forM (fun record => (declaration_safe fits record).bind fun d => ?_) records
  refine .forM (fun type => ?_) d.types
  exact .forM (fun name => (resolve_safe fits name).bind fun _ => faultless_ok _) type.references

/-! ## Any bytes -/

omit fits

/-- Whatever the container is asked for, the answer is no fault. -/
structure Robust (c : Container) : Prop where
  records : Faultless c.records
  declarations : Faultless c.declarations
  lookup (name : String) : Faultless (c.lookup name)
  resolve (name : String) : Faultless (c.resolve name)
  find (name : String) : Faultless (c.find name)
  declaration (o : Offset) : Faultless (c.declaration o)
  method (o : Offset) : Faultless (c.heap.method o)
  property (o : Offset) : Faultless (c.heap.property o)
  type (o : Offset) : Faultless (readType c.heap o)
  signature (o : Offset) : Faultless (readSignature c.heap o)
  references : Faultless c.checkReferences

theorem robust_of_fits (fits : c.heap.Fits) : c.Robust where
  records := records_safe fits
  declarations := declarations_safe fits
  lookup := lookup_safe fits
  resolve := resolve_safe fits
  find := find_safe fits
  declaration := declaration_safe fits
  method := Image.method_safe fits
  property := Image.property_safe fits
  type o := (readType_safe fits o).1
  signature := readSignature_safe fits
  references := checkReferences_safe fits

end Container

/-- **Opening any bytes, and asking for anything in them, is free of faults**: no number is read from
more than eight bytes, no position is past the largest one, no bucket is picked in an empty table and no
place is past the end of the bytes or of a table. -/
theorem loader_faultless {b : Array UInt8} (small : b.size < 2 ^ 63) :
    Faultless (Container.parse b) ∧ ∀ c, Container.parse b = .ok c → c.Robust := by
  have fits : b.size ≤ Heap.largestBlock := Nat.le_sub_one_of_lt small
  obtain ⟨opens, heap⟩ := Container.parse_safe fits
  exact ⟨opens, fun c opened => Container.robust_of_fits (heap c opened)⟩

/-- A container whose only slot leads out of its heap of one byte. -/
def danglingSlot : Array UInt8 := #[1, 1, 5, 6, 8, 0, 1, 255, 0]

/-- It opens, and a lookup in it reports the pointer. -/
theorem loader_faultless_danglingSlot :
    danglingSlot.size < 2 ^ 63 ∧ ∃ c, Container.parse danglingSlot = .ok c ∧ c.Robust ∧
      c.lookup "a" = .error (.malformed 255 (.tooFewBytes 1 1)) := by
  have small : danglingSlot.size < 2 ^ 63 := by decide
  obtain ⟨-, robust⟩ := loader_faultless small
  refine ⟨small, ⟨⟨⟨1, 1⟩, 5, 6, 8⟩, ⟨#[0], ⟨⟨1, 1⟩, by decide⟩⟩, #[], #[255]⟩, ?_⟩
  have opened : Container.parse danglingSlot =
      .ok ⟨⟨⟨1, 1⟩, 5, 6, 8⟩, ⟨#[0], ⟨⟨1, 1⟩, by decide⟩⟩, #[], #[255]⟩ := rfl
  exact ⟨opened, robust _ opened, rfl⟩

end DeclArchive
