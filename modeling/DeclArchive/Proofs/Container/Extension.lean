import DeclArchive.Container.Load
import DeclArchive.Proofs.Extension

/-!
# Bytes behind a container

A container opens as well when bytes come behind it, with the same header, modules and slots
(`Container.parse_append`). Whatever it is asked for, the answer stays, unless it was that the bytes
cannot be read (`Container.Stays`, `answers_stay`). Read from right to left, this says what cutting bytes
off can do: an answer becomes an error of this kind or none at all.
-/

namespace DeclArchive

namespace Container

/-- The longer container is the first one with bytes behind its heap. -/
structure Begins (c longer : Container) : Prop where
  header : longer.header = c.header
  modules : longer.modules = c.modules
  slots : longer.slots = c.slots
  heap : c.heap.Begins longer.heap

/-! ## Opening -/

theorem ofBytes_append {b : Array UInt8} {w : Widths} {file : Image} (more : Array UInt8)
    (h : Image.ofBytes b w = .ok file) :
    file.bytes = b ∧ ∃ longer, Image.ofBytes (b ++ more) w = .ok longer ∧ file.Begins longer := by
  unfold Image.ofBytes at h ⊢
  obtain ⟨f, check, h⟩ := Except.bind_eq_ok.1 h
  cases h
  rw [check]
  exact ⟨rfl, _, rfl, rfl, by simp⟩

theorem tail_begins {im longer rest : Image} (begins : im.Begins longer) {o : Nat}
    (h : im.tail o = .ok rest) : ∃ rest', longer.tail o = .ok rest' ∧ rest.Begins rest' := by
  have size := begins.size_le
  unfold Image.tail at h ⊢
  split_ifs at h with past
  cases h
  rw [if_neg (by omega)]
  refine ⟨_, rfl, begins.format, ?_⟩
  obtain ⟨behind, whole⟩ := begins.bytes
  have start : o ≤ im.bytes.toList.length := by
    rw [Array.length_toList]
    exact Nat.le_of_not_lt past
  have all : im.size = im.bytes.toList.length := Array.length_toList.symm
  have all' : longer.size = longer.bytes.toList.length := Array.length_toList.symm
  simp only [Array.toList_extract, List.extract, all, all', ← whole]
  rw [List.take_of_length_le (by simp), List.take_of_length_le (by simp),
    List.drop_append_of_le_length start]
  exact List.prefix_append _ _

/-- **A container opens as well when bytes come behind it.** -/
theorem parse_append {b : Array UInt8} {c : Container} (opened : parse b = .ok c)
    (more : Array UInt8) : ∃ longer, parse (b ++ more) = .ok longer ∧ c.Begins longer := by
  unfold parse at opened ⊢
  cases first : b[0]? with
  | none =>
    rw [first] at opened
    cases opened
  | some pointerWidth =>
  cases second : b[1]? with
  | none =>
    rw [first, second] at opened
    cases opened
  | some countWidth =>
  have first' : (b ++ more)[0]? = some pointerWidth := by
    rw [Array.getElem?_append_left (Array.getElem?_eq_some_iff.1 first).1, first]
  have second' : (b ++ more)[1]? = some countWidth := by
    rw [Array.getElem?_append_left (Array.getElem?_eq_some_iff.1 second).1, second]
  rw [first, second] at opened
  rw [first', second']
  dsimp only at opened ⊢
  obtain ⟨file, make, opened⟩ := Except.bind_eq_ok.1 opened
  obtain ⟨rfl, longer, make', begins⟩ := ofBytes_append more make
  obtain ⟨moduleTable, pointer₁, opened⟩ := Except.bind_eq_ok.1 opened
  obtain ⟨o₁, past₁, opened⟩ := Except.bind_eq_ok.1 opened
  obtain ⟨globalTable, pointer₂, opened⟩ := Except.bind_eq_ok.1 opened
  obtain ⟨o₂, past₂, opened⟩ := Except.bind_eq_ok.1 opened
  obtain ⟨heapStart, pointer₃, opened⟩ := Except.bind_eq_ok.1 opened
  rw [make', Except.ok_bind, (Image.pointer_persists begins _).eq_ok pointer₁, Except.ok_bind,
    (Image.pastPointer_persists begins _).eq_ok past₁, Except.ok_bind,
    (Image.pointer_persists begins _).eq_ok pointer₂, Except.ok_bind,
    (Image.pastPointer_persists begins _).eq_ok past₂, Except.ok_bind,
    (Image.pointer_persists begins _).eq_ok pointer₃, Except.ok_bind]
  split_ifs at opened with past
  · cases opened
  have past' : ¬ (file.bytes ++ more).size ≤ heapStart := by
    rw [Array.size_append]
    omega
  rw [if_neg past']
  obtain ⟨heap, tail, opened⟩ := Except.bind_eq_ok.1 opened
  obtain ⟨heap', tail', behind⟩ := tail_begins begins tail
  obtain ⟨names, array₁, opened⟩ := Except.bind_eq_ok.1 opened
  obtain ⟨modules, texts, opened⟩ := Except.bind_eq_ok.1 opened
  obtain ⟨slots, array₂, opened⟩ := Except.bind_eq_ok.1 opened
  cases opened
  rw [tail', Except.ok_bind, (Image.array_persists begins _).eq_ok array₁, Except.ok_bind,
    (Image.texts_persists behind _).eq_ok texts, Except.ok_bind,
    (Image.array_persists begins _).eq_ok array₂]
  exact ⟨_, rfl, rfl, rfl, rfl, behind⟩

/-! ## Queries -/

section

variable {c longer : Container} (begins : c.Begins longer)

include begins

theorem records_persists : Persists c.records longer.records := by
  unfold records
  rw [begins.slots]
  exact (Persists.mapM (Image.arrayOrEmpty_persists begins.heap) _).and_then _

theorem declaration_persists (record : Offset) :
    Persists (c.declaration record) (longer.declaration record) := by
  unfold declaration
  rw [begins.modules]
  refine (Image.base_persists begins.heap record).bind ?_
  rintro ⟨base, o⟩
  dsimp only
  rcases c.modules[base.moduleIndex.toNat]? with _ | module
  · exact .rfl
  · exact (Image.body_persists begins.heap record o _).and_then _

theorem declarations_persists : Persists c.declarations longer.declarations :=
  (records_persists begins).bind fun records => .mapM (declaration_persists begins) records

theorem firstNamed_persists (name : String) (records : List Offset) :
    Persists (c.firstNamed name records) (longer.firstNamed name records) := by
  induction records with
  | nil => exact .rfl
  | cons record rest ih =>
    rw [firstNamed, firstNamed]
    refine (Image.names_persists begins.heap record).bind ?_
    rintro ⟨publicName, internal⟩
    dsimp only
    by_cases same : publicName = name
    · rw [if_pos same, if_pos same]
      exact .rfl
    · rw [if_neg same, if_neg same]
      exact ih

theorem lookup_persists (name : String) : Persists (c.lookup name) (longer.lookup name) := by
  unfold lookup slot
  rw [begins.slots]
  by_cases none : c.slots.isEmpty = true
  · rw [if_pos none, if_pos none]
    exact .rfl
  · rw [if_neg none, if_neg none]
    refine Persists.rfl.bind fun slot => ?_
    refine (Image.arrayOrEmpty_persists begins.heap slot).bind fun records => ?_
    exact firstNamed_persists begins name records

theorem resolve_persists (name : String) : Persists (c.resolve name) (longer.resolve name) :=
  (lookup_persists begins name).and_then _

theorem find_persists (name : String) : Persists (c.find name) (longer.find name) := by
  unfold find
  refine (lookup_persists begins name).bind fun found? => ?_
  rcases found? with _ | record
  · exact .rfl
  · exact (declaration_persists begins record).and_then _

theorem checkReferences_persists : Persists c.checkReferences longer.checkReferences := by
  unfold checkReferences
  refine (records_persists begins).bind fun records => ?_
  refine .forM (fun record => (declaration_persists begins record).bind fun d => ?_) records
  refine .forM (fun type => ?_) d.types
  exact .forM (fun name => (resolve_persists begins name).and_then _) type.references

end

/-- Whatever the container is asked for, its answer is that of the other one, unless the bytes could not
be read. -/
structure Stays (c longer : Container) : Prop where
  records : Persists c.records longer.records
  declarations : Persists c.declarations longer.declarations
  lookup (name : String) : Persists (c.lookup name) (longer.lookup name)
  resolve (name : String) : Persists (c.resolve name) (longer.resolve name)
  find (name : String) : Persists (c.find name) (longer.find name)
  declaration (o : Offset) : Persists (c.declaration o) (longer.declaration o)
  method (o : Offset) : Persists (c.heap.method o) (longer.heap.method o)
  property (o : Offset) : Persists (c.heap.property o) (longer.heap.property o)
  references : Persists c.checkReferences longer.checkReferences

theorem Begins.stays {c longer : Container} (begins : c.Begins longer) : c.Stays longer where
  records := records_persists begins
  declarations := declarations_persists begins
  lookup := lookup_persists begins
  resolve := resolve_persists begins
  find := find_persists begins
  declaration := declaration_persists begins
  method := Image.method_persists begins.heap
  property := Image.property_persists begins.heap
  references := checkReferences_persists begins

end Container

/-- **Bytes behind a container change no answer.** With any bytes behind it, whatever opens still opens,
with the same header, modules and slots, and answers as before, except where it answered that the bytes
cannot be read. -/
theorem answers_stay {b : Array UInt8} {c : Container} (opened : Container.parse b = .ok c)
    (more : Array UInt8) :
    ∃ longer, Container.parse (b ++ more) = .ok longer ∧ longer.header = c.header ∧
      longer.modules = c.modules ∧ longer.slots = c.slots ∧ c.Stays longer := by
  obtain ⟨longer, opened', begins⟩ := Container.parse_append opened more
  exact ⟨longer, opened', begins.header, begins.modules, begins.slots, begins.stays⟩

/-- A container with one empty bucket, and one that leads to a record behind the end of the heap. -/
def cutRecord : Array UInt8 := #[1, 1, 5, 6, 9, 0, 2, 0, 1, 0, 1, 3]

/-- With the missing record behind it, the empty bucket is as empty as before; the name in the other one
could not be read, and now is found. -/
theorem answers_stay_cutRecord :
    ∃ c longer, Container.parse cutRecord = .ok c ∧
      Container.parse (cutRecord ++ #[5, 0, 98, 0]) = .ok longer ∧
      c.lookup "a" = .ok none ∧ longer.lookup "a" = .ok none ∧
      c.lookup "b" = .error (.malformed 3 (.tooFewBytes 1 3)) ∧ longer.lookup "b" = .ok (some 3) := by
  have opened : Container.parse cutRecord =
      .ok ⟨⟨⟨1, 1⟩, 5, 6, 9⟩, ⟨#[0, 1, 3], ⟨⟨1, 1⟩, by decide⟩⟩, #[], #[0, 1]⟩ := rfl
  have whole : Container.parse (cutRecord ++ #[5, 0, 98, 0]) =
      .ok ⟨⟨⟨1, 1⟩, 5, 6, 9⟩, ⟨#[0, 1, 3, 5, 0, 98, 0], ⟨⟨1, 1⟩, by decide⟩⟩, #[], #[0, 1]⟩ := rfl
  obtain ⟨longer, opened', -, -, -, stays⟩ := answers_stay opened #[5, 0, 98, 0]
  obtain rfl := Except.ok.inj (opened'.symm.trans whole)
  exact ⟨_, _, opened, whole, rfl, (stays.lookup "a").eq_ok rfl, rfl, rfl⟩

end DeclArchive
