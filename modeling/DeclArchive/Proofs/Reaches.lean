import DeclArchive.Proofs.Foretold

/-!
# Runs within reach of their pointers

Whatever the widths are, the one thing about a writer that can make a type unwritable is where it is in the
heap: an offset may be out of reach of its pointers. `Write.Reaches refusal? Q x w` says so of the run of `x`
from `w`: it stops with the refusal, if there is one, and otherwise succeeds as `Q` says, unless an offset
in the heap is out of reach. With eight bytes for every number nothing in one block of memory is, so what
reaches is foretold (`Write.Reaches.foretold`).
-/

namespace DeclArchive

namespace Write

/-- The run stopped at an offset that is in the heap, but that no pointer can hold. -/
def OutOfReach (e : Error) (w : Writer) : Prop :=
  ∃ target, e = .offsetOverflow target w.format.pointer ∧
    w.format.largestOffset < target ∧ Inside target w

variable {α β : Type} {refusal? refusal'? : Option Error} {Q : α → Writer → Prop} {w : Writer}

/-- From `w` the computation stops with the refusal, if there is one, and otherwise returns what `Q`
says; or an offset is out of reach. -/
def Reaches (refusal? : Option Error) (Q : α → Writer → Prop) (x : Write α) (w : Writer) : Prop :=
  w.Sound →
    match x.run.run w with
    | (.ok a, w') => refusal? = none ∧ w.Grew w' ∧ Q a w'
    | (.error e, w') => w.Grew w' ∧ (refusal? = some e ∨ OutOfReach e w')

/-! ## Steps -/

theorem reaches_pure {a : α} (h : Q a w) : Reaches none Q (pure a) w :=
  fun _ => ⟨rfl, refl_of Writer.Grew w, h⟩

theorem reaches_of_returns {x : Write α} {a : α} {w' : Writer} (run : Returns x w a w')
    (grew : w.Grew w') (h : Q a w') : Reaches none Q x w := by
  intro _
  rw [run]
  exact ⟨rfl, grew, h⟩

theorem reaches_throw_bind (e : Error) (f : β → Write α) :
    Reaches (some e) Q (throw e >>= f) w :=
  fun _ => ⟨refl_of Writer.Grew w, .inl rfl⟩

theorem Reaches.imp {x : Write α} {Q' : α → Writer → Prop} (h : Reaches refusal? Q x w)
    (weaker : ∀ a w', Q a w' → Q' a w') : Reaches refusal? Q' x w := by
  intro sound
  have run := h sound
  rcases result : x.run.run w with ⟨e | a, w'⟩
  · rwa [result] at run
  · rw [result] at run
    exact ⟨run.1, run.2.1, weaker a w' run.2.2⟩

/-- Of two steps the second one is made if the first one is not refused. -/
theorem Reaches.bind {P : β → Writer → Prop} {x : Write β} {f : β → Write α}
    (first : Reaches refusal? P x w)
    (next : ∀ b w', w.Grew w' → P b w' → Reaches refusal'? Q (f b) w') :
    Reaches (refusal?.or refusal'?) Q (x >>= f) w := by
  intro sound
  have run := first sound
  rw [run_bind]
  rcases result : x.run.run w with ⟨e | b, w'⟩
  · rw [result] at run
    exact ⟨run.1, run.2.imp_left fun refused => by rw [refused, Option.some_or]⟩
  rw [result] at run
  obtain ⟨rfl, grew, here⟩ := run
  have run' := next b w' grew here (grew.sound sound)
  rw [Option.none_or]
  dsimp only
  rcases result' : (f b).run.run w' with ⟨e | a, u⟩
  · rw [result'] at run'
    exact ⟨trans_of Writer.Grew grew run'.1, run'.2⟩
  · rw [result'] at run'
    exact ⟨run'.1, trans_of Writer.Grew grew run'.2.1, run'.2.2⟩

/-- The first step is not refused. -/
theorem Reaches.none_bind {P : β → Writer → Prop} {x : Write β} {f : β → Write α}
    (first : Reaches none P x w)
    (next : ∀ b w', w.Grew w' → P b w' → Reaches refusal? Q (f b) w') :
    Reaches refusal? Q (x >>= f) w := first.bind next

/-- The second step is not refused. -/
theorem Reaches.bind_none {P : β → Writer → Prop} {x : Write β} {f : β → Write α}
    (first : Reaches refusal? P x w)
    (next : ∀ b w', w.Grew w' → P b w' → Reaches none Q (f b) w') :
    Reaches refusal? Q (x >>= f) w := by
  rw [← refusal?.or_none]
  exact first.bind next

theorem reaches_mapM {f : α → Write Offset} {xs : List α}
    (each : ∀ x ∈ xs, ∀ w', w.Grew w' → Reaches none Inside (f x) w') :
    Reaches none (AllInside xs.length) (xs.mapM f) w := by
  induction xs generalizing w with
  | nil => exact reaches_pure allInside_nil
  | cons x xs ih =>
    obtain ⟨first, others⟩ := List.forall_mem_cons.1 each
    rw [List.mapM_cons]
    refine (first w (refl_of Writer.Grew w)).none_bind fun o w₁ grew₁ here => ?_
    refine (ih fun y hy w' later => others y hy w' (trans_of Writer.Grew grew₁ later)).none_bind
      fun os w₂ grew₂ there => ?_
    exact reaches_pure ⟨congrArg (· + 1) there.length,
      List.forall_mem_cons.2 ⟨here.later grew₂.kept, there.inside⟩⟩

/-! ## Operations -/

theorem reaches_bytes (data : List UInt8) (w : Writer) : Reaches none Inside (bytes data) w :=
  fun _ => ⟨rfl, w.grew_append data, (w.grew_append data).size_le⟩

theorem reaches_position (w : Writer) : Reaches none Inside position w :=
  fun _ => ⟨rfl, refl_of Writer.Grew w, Nat.le_refl _⟩

theorem reaches_text (s : String) (w : Writer) : Reaches none Inside (text s) w := by
  intro sound
  have grew := grows_text s w
  rw [text_run] at grew ⊢
  cases known : w.interned[s]? with
  | none =>
    rw [known] at grew
    exact ⟨rfl, grew, grew.size_le⟩
  | some o =>
    rw [known] at grew
    exact ⟨rfl, grew, inside_of_stores (sound s o known)⟩

theorem reaches_texts (ss : List String) (w : Writer) :
    Reaches none (AllInside ss.length) (texts ss) w :=
  reaches_mapM fun s _ w' _ => reaches_text s w'

theorem reaches_pointer {target : Offset} (h : Inside target w) :
    Reaches none Inside (pointer target) w := by
  by_cases large : w.format.largestOffset < target
  · intro _
    have run : Stops (pointer target) w (.offsetOverflow target w.format.pointer) w := by
      simp [pointer, large]
    rw [run]
    exact ⟨refl_of Writer.Grew w, .inr ⟨target, rfl, large, h⟩⟩
  · have run := returns_pointer.2 ⟨Nat.not_lt.1 large, rfl, rfl⟩
    exact reaches_of_returns run (w.grew_append _) (w.grew_append _).size_le

theorem reaches_count {n : Nat} (few : n ≤ w.format.largestCount) :
    Reaches none Inside (count n) w :=
  reaches_of_returns (returns_count.2 ⟨few, rfl, rfl⟩) (w.grew_append _) (w.grew_append _).size_le

theorem reaches_pointers {os : List Offset} (inside : ∀ o ∈ os, Inside o w) :
    Reaches none (fun _ _ => True) (pointers os) w := by
  unfold pointers
  induction os generalizing w with
  | nil => exact reaches_pure trivial
  | cons o os ih =>
    obtain ⟨first, others⟩ := List.forall_mem_cons.1 inside
    refine Reaches.none_bind (P := fun _ _ => True) ?_ fun _ w' grew _ => ?_
    · exact (reaches_pointer first).none_bind fun _ _ _ _ => reaches_pure trivial
    · exact ih fun o ho => (others o ho).later grew.kept

theorem reaches_array {n : Nat} {os : List Offset} (h : AllInside n os w)
    (few : n ≤ w.format.largestCount) : Reaches none Inside (array os) w :=
  (reaches_count (h.length ▸ few)).none_bind fun _ _ grew here =>
    (reaches_pointers (h.later grew.kept).inside).none_bind fun _ _ grew' _ =>
      reaches_pure (here.later grew'.kept)

theorem reaches_arrayOrNull {n : Nat} {os : List Offset} (h : AllInside n os w)
    (few : n ≤ w.format.largestCount) : Reaches none Inside (arrayOrNull os) w := by
  unfold arrayOrNull
  split_ifs
  · exact reaches_pure (Nat.zero_le _)
  · exact reaches_array h few

/-! ## Wide writers -/

/-- With eight bytes for every number, only a heap of more than one block is out of reach. -/
theorem Reaches.foretold {x : Write α} (h : Reaches refusal? Q x w) : Foretold id refusal? Q x w := by
  intro wide
  have run := h wide.sound
  rcases result : x.run.run w with ⟨e | a, w'⟩
  · rw [result] at run
    obtain ⟨grew, refused | ⟨target, -, large, inside⟩⟩ := run
    · exact .inl refused
    · exact .inr (((grew.kept.wide wide).block_le_offset.trans_lt large).trans_le inside)
  · rw [result] at run
    exact ⟨run.1, run.2.1.kept, run.2.2⟩

theorem foretold_bytes (data : List UInt8) (w : Writer) : Foretold id none Inside (bytes data) w :=
  (reaches_bytes data w).foretold

theorem foretold_text (s : String) (w : Writer) : Foretold id none Inside (text s) w :=
  (reaches_text s w).foretold

theorem foretold_texts (ss : List String) (w : Writer) :
    Foretold id none (AllInside ss.length) (texts ss) w := (reaches_texts ss w).foretold

theorem foretold_pointer {target : Offset} (h : Inside target w) :
    Foretold id none Inside (pointer target) w := (reaches_pointer h).foretold

/-- A count that does not fit is larger than a block of memory, and so is a heap that has as many bytes. -/
theorem foretold_count {n : Nat} (few : n ≤ Heap.largestBlock ∨ n ≤ w.heap.size) :
    Foretold id none Inside (count n) w := by
  intro wide
  by_cases large : w.format.largestCount < n
  · have run : Stops (count n) w (.countOverflow n w.format.count) w := by simp [count, large]
    have more := wide.block_le_count.trans_lt large
    rw [run]
    exact .inr (more.trans_le (few.resolve_left more.not_ge))
  · exact (reaches_count (Nat.not_lt.1 large)).foretold wide

theorem foretold_array {n : Nat} {os : List Offset} (h : AllInside n os w)
    (few : n ≤ Heap.largestBlock ∨ n ≤ w.heap.size) : Foretold id none Inside (array os) w := by
  refine (foretold_count (h.length ▸ few)).none_bind fun _ w' kept here => ?_
  refine (reaches_pointers (h.later kept).inside).foretold.none_bind fun _ _ kept' _ => ?_
  exact foretold_pure (here.later kept')

theorem foretold_arrayOrNull {n : Nat} {os : List Offset} (h : AllInside n os w)
    (few : n ≤ Heap.largestBlock ∨ n ≤ w.heap.size) : Foretold id none Inside (arrayOrNull os) w := by
  unfold arrayOrNull
  split_ifs
  · exact foretold_pure (Nat.zero_le _)
  · exact foretold_array h few

end Write

end DeclArchive
