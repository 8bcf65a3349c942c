import DeclArchive.Proofs.Writer

/-!
# Runs that are foretold

With eight bytes for every offset and count, no number is too large for its field as long as the heap
and every list are in one block of memory. So whether a run stops, and with what, depends on what is
written and not on where it goes. `Foretold view refusal? Q x s` says so of the run of `x` from `s`:
it stops with the refusal, if there is one, and otherwise succeeds as `Q` says. A run that fills more
than one block may stop in another way.

Steps are foretold one after another: the first refusal among them is that of the run
(`Foretold.bind`, `Foretold.forM`, `Write.foretold_mapM`).
-/

namespace DeclArchive

/-! ## Wide writers -/

/-- Offsets and counts have eight bytes, and every interned text is where the table says. -/
structure Writer.Wide (w : Writer) : Prop where
  widths : w.format.toWidths = ⟨8, 8⟩
  sound : w.Sound

/-- The later writer is as wide, and its heap is as large. -/
structure Writer.Kept (w w' : Writer) : Prop where
  wide : w.Wide → w'.Wide
  size : w.heap.size ≤ w'.heap.size

theorem Writer.Grew.kept {w w' : Writer} (h : w.Grew w') : w.Kept w' :=
  ⟨fun wide => ⟨h.format ▸ wide.widths, h.sound wide.sound⟩, h.size_le⟩

instance : IsPreorder Writer Writer.Kept where
  refl _ := ⟨id, Nat.le_refl _⟩
  trans _ _ _ h k := ⟨k.wide ∘ h.wide, h.size.trans k.size⟩

/-- What is in one block of memory has an offset of eight bytes. -/
theorem Writer.Wide.block_le_offset {w : Writer} (wide : w.Wide) :
    Heap.largestBlock ≤ w.format.largestOffset := by
  rw [wide.widths]
  decide

theorem Writer.Wide.block_le_count {w : Writer} (wide : w.Wide) :
    Heap.largestBlock ≤ w.format.largestCount := by
  rw [wide.widths]
  decide

/-! ## Runs -/

section

variable {σ α β : Type} {view : σ → Writer} {refusal? refusal'? : Option Error} {s : σ}
  {Q : α → σ → Prop}

/-- From `s`, where the writer is `view s`, the computation stops with the refusal, if there is one, and
otherwise returns what `Q` says; or it fills more than one block of memory. -/
def Foretold (view : σ → Writer) (refusal? : Option Error) (Q : α → σ → Prop)
    (x : ExceptT Error (StateM σ) α) (s : σ) : Prop :=
  (view s).Wide →
    match x.run.run s with
    | (.ok a, t) => refusal? = none ∧ (view s).Kept (view t) ∧ Q a t
    | (.error e, t) => refusal? = some e ∨ Heap.largestBlock < (view t).heap.size

theorem foretold_pure {a : α} (h : Q a s) : Foretold view none Q (pure a) s :=
  fun _ => ⟨rfl, refl_of Writer.Kept _, h⟩

theorem foretold_throw (e : Error) :
    Foretold view (some e) Q (throw e : ExceptT Error (StateM σ) α) s :=
  fun _ => .inl rfl

theorem foretold_throw_bind (e : Error) (f : β → ExceptT Error (StateM σ) α) :
    Foretold view (some e) Q (throw e >>= f) s :=
  fun _ => .inl rfl

theorem foretold_get (s : σ) : Foretold view none (fun a t => a = s ∧ t = s) get s :=
  fun _ => ⟨rfl, refl_of Writer.Kept _, rfl, rfl⟩

theorem foretold_of_returns {x : ExceptT Error (StateM σ) α} {a : α} {t : σ} (run : Returns x s a t)
    (kept : (view s).Kept (view t)) (h : Q a t) : Foretold view none Q x s := by
  intro wide
  rw [run]
  exact ⟨rfl, kept, h⟩

theorem Foretold.imp {x : ExceptT Error (StateM σ) α} {Q' : α → σ → Prop}
    (h : Foretold view refusal? Q x s)
    (weaker : ∀ a t, Returns x s a t → (view s).Kept (view t) → Q a t → Q' a t) :
    Foretold view refusal? Q' x s := by
  intro wide
  have run := h wide
  rcases result : x.run.run s with ⟨e | a, t⟩
  · rwa [result] at run
  · rw [result] at run
    exact ⟨run.1, run.2.1, weaker a t result run.2.1 run.2.2⟩

/-- Of two steps the second one is made if the first one is not refused. -/
theorem Foretold.bind {P : β → σ → Prop} {x : ExceptT Error (StateM σ) β}
    {f : β → ExceptT Error (StateM σ) α} (first : Foretold view refusal? P x s)
    (next : ∀ b t, (view s).Kept (view t) → P b t → Foretold view refusal'? Q (f b) t) :
    Foretold view (refusal?.or refusal'?) Q (x >>= f) s := by
  intro wide
  have run := first wide
  rw [run_bind]
  rcases result : x.run.run s with ⟨e | b, t⟩
  · rw [result] at run
    exact run.imp_left fun refused => by rw [refused, Option.some_or]
  rw [result] at run
  obtain ⟨rfl, kept, here⟩ := run
  have run' := next b t kept here (kept.wide wide)
  rw [Option.none_or]
  dsimp only
  rcases result' : (f b).run.run t with ⟨e | a, u⟩
  · rwa [result'] at run'
  · rw [result'] at run'
    exact ⟨run'.1, trans_of Writer.Kept kept run'.2.1, run'.2.2⟩

/-- The first step is not refused. -/
theorem Foretold.none_bind {P : β → σ → Prop} {x : ExceptT Error (StateM σ) β}
    {f : β → ExceptT Error (StateM σ) α} (first : Foretold view none P x s)
    (next : ∀ b t, (view s).Kept (view t) → P b t → Foretold view refusal? Q (f b) t) :
    Foretold view refusal? Q (x >>= f) s := first.bind next

/-- The second step is not refused. -/
theorem Foretold.bind_none {P : β → σ → Prop} {x : ExceptT Error (StateM σ) β}
    {f : β → ExceptT Error (StateM σ) α} (first : Foretold view refusal? P x s)
    (next : ∀ b t, (view s).Kept (view t) → P b t → Foretold view none Q (f b) t) :
    Foretold view refusal? Q (x >>= f) s := by
  rw [← refusal?.or_none]
  exact first.bind next

theorem findSome?_cons_eq_or {γ : Type} (f : β → Option γ) (x : β) (xs : List β) :
    (x :: xs).findSome? f = (f x).or (xs.findSome? f) := by
  rw [List.findSome?_cons]
  cases f x <;> rfl

/-- Steps that keep an invariant, one for each element. -/
theorem Foretold.forM {I : σ → Prop} {f : β → ExceptT Error (StateM σ) PUnit}
    {refusal? : β → Option Error} {xs : List β}
    (each : ∀ x ∈ xs, ∀ t, I t → Foretold view (refusal? x) (fun _ => I) (f x) t) (start : I s) :
    Foretold view (xs.findSome? refusal?) (fun _ => I) (xs.forM f) s := by
  induction xs generalizing s with
  | nil => exact foretold_pure start
  | cons x xs ih =>
    obtain ⟨first, others⟩ := List.forall_mem_cons.1 each
    rw [findSome?_cons_eq_or]
    exact (first s start).bind fun _ t _ here => ih others here

end

namespace Write

variable {w : Writer} {o : Offset}

/-! ## Offsets -/

/-- The offset is in the heap, or at its end. -/
def Inside (o : Offset) (w : Writer) : Prop := o ≤ w.heap.size

theorem Inside.later {w' : Writer} (h : Inside o w) (kept : w.Kept w') : Inside o w' :=
  Nat.le_trans h kept.size

/-- These are `n` offsets inside the heap. -/
structure AllInside (n : Nat) (os : List Offset) (w : Writer) : Prop where
  length : os.length = n
  inside : ∀ o ∈ os, Inside o w

theorem AllInside.later {n : Nat} {os : List Offset} {w' : Writer} (h : AllInside n os w)
    (kept : w.Kept w') : AllInside n os w' :=
  ⟨h.length, fun o ho => (h.inside o ho).later kept⟩

theorem allInside_nil : AllInside 0 [] w := ⟨rfl, nofun⟩

/-- A text has at least its zero byte, so it begins before the end of the heap. -/
theorem inside_of_stores {s : String} (stores : w.heap.Stores o s) : Inside o w := stores.lt.le

/-! ## Steps of writing -/

theorem foretold_note (event : Event) (w : Writer) :
    Foretold id none (fun _ _ => True) (note event) w :=
  fun _ => ⟨rfl, ⟨fun wide => ⟨wide.widths, wide.sound⟩, Nat.le_refl _⟩, trivial⟩

theorem foretold_mapM {α : Type} {f : α → Write Offset} {refusal? : α → Option Error} {xs : List α}
    (each : ∀ x ∈ xs, ∀ w', w.Kept w' → Foretold id (refusal? x) Inside (f x) w') :
    Foretold id (xs.findSome? refusal?) (AllInside xs.length) (xs.mapM f) w := by
  induction xs generalizing w with
  | nil => exact foretold_pure allInside_nil
  | cons x xs ih =>
    obtain ⟨first, others⟩ := List.forall_mem_cons.1 each
    rw [List.mapM_cons, findSome?_cons_eq_or]
    refine (first w (refl_of Writer.Kept w)).bind fun o w₁ kept₁ here => ?_
    refine (ih fun y hy w' later => others y hy w' (trans_of Writer.Kept kept₁ later)).bind_none
      fun os w₂ kept there => ?_
    exact foretold_pure ⟨congrArg (· + 1) there.length,
      List.forall_mem_cons.2 ⟨here.later kept, there.inside⟩⟩

end Write

end DeclArchive
