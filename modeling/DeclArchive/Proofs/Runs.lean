import DeclArchive.Error
import Mathlib.Data.List.Forall2
import Mathlib.Order.Defs.Unbundled

/-!
# Runs of computations

Writing, building and streaming are computations that change a state and may stop. `Returns x s a s'`
says that `x` started in `s` succeeds with `a` and leaves `s'`, and `Stops x s e s'` that it stops with
`e`; the lemmas take such a run apart, one operation at a time. `Ends E Q x s` says what holds at the end
of the run, `Q` if it succeeds and `E` if it stops. `Keeps R x` says that the state which `x` leaves,
whether it succeeds or not, is related to the one it found. `Follows R S x y` says that `y` succeeds where
`x` does, from any related state, and that they end alike.

Reading is a computation in `Except` alone; `Except.bind_ok` takes a read apart.
-/

namespace DeclArchive

/-! ## Reads -/

theorem Except.ok_bind {ε α β : Type} (a : α) (f : α → Except ε β) :
    (Except.ok a : Except ε α) >>= f = f a := rfl

/-- A read in two steps succeeds where both steps do. -/
theorem Except.bind_eq_ok {ε α β : Type} {x : Except ε α} {f : α → Except ε β} {b : β} :
    x >>= f = .ok b ↔ ∃ a, x = .ok a ∧ f a = .ok b := by
  cases x with
  | error e => exact ⟨fun h => (nomatch h), fun ⟨_, h, _⟩ => (nomatch h)⟩
  | ok a => exact ⟨fun h => ⟨a, rfl, h⟩, fun ⟨_, h, hb⟩ => by cases h; exact hb⟩

theorem Except.mapM_eq_ok {ε α β : Type} {f : α → Except ε β} {xs : List α} {ys : List β}
    (h : List.Forall₂ (fun x y => f x = .ok y) xs ys) : xs.mapM f = .ok ys := by
  induction h with
  | nil => rfl
  | cons first _ ih => rw [List.mapM_cons, first, Except.ok_bind, ih]; rfl

theorem Except.forall₂_of_mapM {ε α β : Type} {f : α → Except ε β} {xs : List α} {ys : List β}
    (h : xs.mapM f = .ok ys) : List.Forall₂ (fun x y => f x = .ok y) xs ys := by
  induction xs generalizing ys with
  | nil =>
    cases h
    exact .nil
  | cons x xs ih =>
    rw [List.mapM_cons] at h
    obtain ⟨y, first, h⟩ := Except.bind_eq_ok.1 h
    obtain ⟨ys, rest, h⟩ := Except.bind_eq_ok.1 h
    cases h
    exact .cons first (ih rest)

/-- What a read returns, if it succeeds, is what its steps return. -/
theorem Except.toOption_bind {ε α β : Type} (x : Except ε α) (f : α → Except ε β) :
    (x >>= f).toOption = x.toOption >>= fun a => (f a).toOption := by
  cases x <;> rfl

theorem Except.toOption_eq_some {ε α : Type} {x : Except ε α} {a : α} :
    x.toOption = some a ↔ x = .ok a := by
  cases x with
  | error _ => exact ⟨nofun, nofun⟩
  | ok _ => exact ⟨fun h => congrArg _ (Option.some.inj h), fun h => by cases h; rfl⟩

theorem Except.toOption_mapM {ε α β γ : Type} {f : β → Except ε γ} {g : α → Option γ}
    {xs : List α} {ys : List β} (h : List.Forall₂ (fun x y => (f y).toOption = g x) xs ys) :
    (ys.mapM f).toOption = xs.mapM g := by
  induction h with
  | nil => rfl
  | cons first _ ih =>
    rw [List.mapM_cons, List.mapM_cons, Except.toOption_bind, first]
    congr 1
    funext z
    rw [Except.toOption_bind, ih]
    rfl

/-- Values that each lead to a related one do so together. -/
theorem Option.exists_mapM_eq_some {α β : Type} {g : α → Option β} {R : α → β → Prop} {xs : List α}
    (h : ∀ x ∈ xs, ∃ y, g x = some y ∧ R x y) : ∃ ys, xs.mapM g = some ys ∧ List.Forall₂ R xs ys := by
  induction xs with
  | nil => exact ⟨[], rfl, .nil⟩
  | cons x xs ih =>
    obtain ⟨⟨y, here, first⟩, others⟩ := List.forall_mem_cons.1 h
    obtain ⟨ys, there, rest⟩ := ih others
    refine ⟨y :: ys, ?_, .cons first rest⟩
    rw [List.mapM_cons, here, there]
    rfl

theorem forall₂_mem {α β : Type} {R : α → β → Prop} {xs : List α} {ys : List β}
    (h : List.Forall₂ R xs ys) : List.Forall₂ (fun x y => x ∈ xs ∧ y ∈ ys ∧ R x y) xs ys := by
  induction h with
  | nil => exact .nil
  | cons first _ ih =>
    refine .cons ⟨List.mem_cons_self, List.mem_cons_self, first⟩ (ih.imp fun _ _ h => ?_)
    exact ⟨List.mem_cons_of_mem _ h.1, List.mem_cons_of_mem _ h.2.1, h.2.2⟩

theorem exists_right_of_forall₂ {α β : Type} {R : α → β → Prop} {xs : List α} {ys : List β}
    (h : List.Forall₂ R xs ys) {x : α} (hx : x ∈ xs) : ∃ y ∈ ys, R x y := by
  obtain ⟨i, lt, rfl⟩ := List.getElem_of_mem hx
  have lt' := h.length_eq ▸ lt
  exact ⟨ys[i], List.getElem_mem lt', h.get lt lt'⟩

theorem exists_left_of_forall₂ {α β : Type} {R : α → β → Prop} {xs : List α} {ys : List β}
    (h : List.Forall₂ R xs ys) {y : β} (hy : y ∈ ys) : ∃ x ∈ xs, R x y :=
  exists_right_of_forall₂ h.flip hy

/-- Lists that are both related to a third are related to one another. -/
theorem forall₂_join {α β γ : Type} {R : α → β → Prop} {S : α → γ → Prop} {T : β → γ → Prop}
    (join : ∀ x y z, R x y → S x z → T y z) {xs : List α} {ys : List β} {zs : List γ}
    (h : List.Forall₂ R xs ys) (k : List.Forall₂ S xs zs) : List.Forall₂ T ys zs := by
  induction h generalizing zs with
  | nil =>
    cases k
    exact .nil
  | cons first _ ih =>
    cases k with
    | cons first' rest' => exact .cons (join _ _ _ first first') (ih rest')

/-- Among related elements the same one is the first that is looked for. -/
theorem find?_forall₂ {α β : Type} {R : α → β → Prop} {p : α → Bool} {q : β → Bool}
    (same : ∀ x y, R x y → q y = p x) {xs : List α} {ys : List β} (h : List.Forall₂ R xs ys) :
    Option.Rel R (xs.find? p) (ys.find? q) := by
  induction h with
  | nil => exact .none
  | @cons x y _ _ first _ ih =>
    rw [List.find?_cons, List.find?_cons, same x y first]
    cases p x with
    | true => exact .some first
    | false => exact ih

/-! ## Runs that succeed -/

variable {σ α β : Type}

/-- From `s` the computation succeeds with `a` and leaves `s'`. -/
def Returns (x : ExceptT Error (StateM σ) α) (s : σ) (a : α) (s' : σ) : Prop :=
  x.run.run s = (.ok a, s')

@[simp] theorem returns_pure {a b : α} {s s' : σ} :
    Returns (pure a) s b s' ↔ a = b ∧ s = s' := by
  unfold Returns
  exact ⟨fun h => by cases h; exact ⟨rfl, rfl⟩, fun ⟨h, h'⟩ => by rw [h, h']; rfl⟩

@[simp] theorem returns_throw {e : Error} {a : α} {s s' : σ} :
    Returns (throw e) s a s' ↔ False :=
  ⟨fun h => (nomatch congrArg Prod.fst h), False.elim⟩

@[simp] theorem returns_get {s a s' : σ} :
    Returns (get : ExceptT Error (StateM σ) σ) s a s' ↔ s = a ∧ s = s' := by
  unfold Returns
  exact ⟨fun h => by cases h; exact ⟨rfl, rfl⟩, fun ⟨h, h'⟩ => by rw [← h, ← h']; rfl⟩

@[simp] theorem returns_modify {g : σ → σ} {s s' : σ} {a : PUnit} :
    Returns (modify g : ExceptT Error (StateM σ) PUnit) s a s' ↔ g s = s' := by
  unfold Returns
  exact ⟨fun h => by cases h; rfl, fun h => by rw [← h]; rfl⟩

@[simp] theorem returns_set {t s s' : σ} {a : PUnit} :
    Returns (set t : ExceptT Error (StateM σ) PUnit) s a s' ↔ t = s' := by
  unfold Returns
  exact ⟨fun h => by cases h; rfl, fun h => by rw [← h]; rfl⟩

theorem run_bind (x : ExceptT Error (StateM σ) α) (f : α → ExceptT Error (StateM σ) β) (s : σ) :
    (x >>= f).run.run s =
      match x.run.run s with
      | (.ok a, t) => (f a).run.run t
      | (.error e, t) => (.error e, t) := by
  show (match x.run.run s with
    | (r, t) => (ExceptT.bindCont f r).run t) = _
  rcases x.run.run s with ⟨_ | _, _⟩ <;> rfl

@[simp] theorem returns_bind {x : ExceptT Error (StateM σ) α}
    {f : α → ExceptT Error (StateM σ) β} {s s' : σ} {b : β} :
    Returns (x >>= f) s b s' ↔ ∃ a t, Returns x s a t ∧ Returns (f a) t b s' := by
  unfold Returns
  rw [run_bind]
  rcases x.run.run s with ⟨e | a, t⟩
  · exact ⟨fun h => (nomatch congrArg Prod.fst h), fun ⟨_, _, h, _⟩ => (nomatch congrArg Prod.fst h)⟩
  · exact ⟨fun h => ⟨a, t, rfl, h⟩, fun ⟨_, _, h, hb⟩ => by cases h; exact hb⟩

theorem Returns.bind {x : ExceptT Error (StateM σ) α} {f : α → ExceptT Error (StateM σ) β}
    {s t s' : σ} {a : α} {b : β} (first : Returns x s a t) (rest : Returns (f a) t b s') :
    Returns (x >>= f) s b s' := returns_bind.2 ⟨a, t, first, rest⟩

@[simp] theorem returns_mapM_nil {f : α → ExceptT Error (StateM σ) β} {s s' : σ} {ys : List β} :
    Returns ([].mapM f) s ys s' ↔ [] = ys ∧ s = s' := by
  rw [List.mapM_nil, returns_pure]

@[simp] theorem returns_mapM_cons {f : α → ExceptT Error (StateM σ) β} {x : α} {xs : List α}
    {s s' : σ} {zs : List β} :
    Returns ((x :: xs).mapM f) s zs s' ↔
      ∃ y t, Returns (f x) s y t ∧ ∃ ys, Returns (xs.mapM f) t ys s' ∧ y :: ys = zs := by
  simp only [List.mapM_cons, returns_bind, returns_pure]
  constructor
  · rintro ⟨y, t, first, ys, u, rest, rfl, rfl⟩
    exact ⟨y, t, first, ys, rest, rfl⟩
  · rintro ⟨y, t, first, ys, rest, rfl⟩
    exact ⟨y, t, first, ys, s', rest, rfl, rfl⟩

theorem Returns.length_of_mapM {f : α → ExceptT Error (StateM σ) β} {xs : List α} {ys : List β}
    {s s' : σ} (run : Returns (xs.mapM f) s ys s') : ys.length = xs.length := by
  induction xs generalizing s ys with
  | nil =>
    obtain ⟨rfl, -⟩ := returns_mapM_nil.1 run
    rfl
  | cons x xs ih =>
    obtain ⟨y, t, -, ys, rest, rfl⟩ := returns_mapM_cons.1 run
    exact congrArg (· + 1) (ih rest)

@[simp] theorem returns_forM_nil {f : α → ExceptT Error (StateM σ) PUnit} {s s' : σ} {u : PUnit} :
    Returns (List.forM [] f) s u s' ↔ s = s' := by
  show Returns (pure PUnit.unit) s u s' ↔ s = s'
  simp

@[simp] theorem returns_forM_cons {f : α → ExceptT Error (StateM σ) PUnit} {x : α} {xs : List α}
    {s s' : σ} {u : PUnit} :
    Returns ((x :: xs).forM f) s u s' ↔
      ∃ v t, Returns (f x) s v t ∧ Returns (xs.forM f) t u s' := by
  show Returns (f x >>= fun _ => xs.forM f) s u s' ↔ _
  rw [returns_bind]

/-! ## Runs that stop -/

/-- From `s` the computation stops with `e` and leaves `s'`. -/
def Stops (x : ExceptT Error (StateM σ) α) (s : σ) (e : Error) (s' : σ) : Prop :=
  x.run.run s = (.error e, s')

@[simp] theorem stops_pure {a : α} {s s' : σ} {e : Error} :
    Stops (pure a : ExceptT Error (StateM σ) α) s e s' ↔ False :=
  ⟨fun h => (nomatch congrArg Prod.fst h), False.elim⟩

@[simp] theorem stops_throw {e e' : Error} {s s' : σ} :
    Stops (throw e : ExceptT Error (StateM σ) α) s e' s' ↔ e = e' ∧ s = s' := by
  unfold Stops
  exact ⟨fun h => by cases h; exact ⟨rfl, rfl⟩, fun ⟨h, h'⟩ => by rw [h, h']; rfl⟩

@[simp] theorem stops_get {s s' : σ} {e : Error} :
    Stops (get : ExceptT Error (StateM σ) σ) s e s' ↔ False :=
  ⟨fun h => (nomatch congrArg Prod.fst h), False.elim⟩

@[simp] theorem stops_modify {g : σ → σ} {s s' : σ} {e : Error} :
    Stops (modify g : ExceptT Error (StateM σ) PUnit) s e s' ↔ False :=
  ⟨fun h => (nomatch congrArg Prod.fst h), False.elim⟩

@[simp] theorem stops_set {t s s' : σ} {e : Error} :
    Stops (set t : ExceptT Error (StateM σ) PUnit) s e s' ↔ False :=
  ⟨fun h => (nomatch congrArg Prod.fst h), False.elim⟩

/-- Two steps stop where the first one does, or the second one behind it. -/
@[simp] theorem stops_bind {x : ExceptT Error (StateM σ) α}
    {f : α → ExceptT Error (StateM σ) β} {s s' : σ} {e : Error} :
    Stops (x >>= f) s e s' ↔ Stops x s e s' ∨ ∃ a t, Returns x s a t ∧ Stops (f a) t e s' := by
  unfold Stops Returns
  rw [run_bind]
  rcases x.run.run s with ⟨e' | a, t⟩
  · constructor
    · intro h
      cases h
      exact .inl rfl
    · rintro (h | ⟨_, _, h, _⟩)
      · cases h
        rfl
      · cases h
  · constructor
    · exact fun h => .inr ⟨a, t, rfl, h⟩
    · rintro (h | ⟨_, _, h, stop⟩)
      · cases h
      · cases h
        exact stop

/-- A run that does not stop returns. -/
theorem returns_or_stops (x : ExceptT Error (StateM σ) α) (s : σ) :
    (∃ a s', Returns x s a s') ∨ ∃ e s', Stops x s e s' := by
  unfold Returns Stops
  rcases x.run.run s with ⟨e | a, s'⟩
  · exact .inr ⟨e, s', rfl⟩
  · exact .inl ⟨a, s', rfl⟩

/-! ## How a run ends -/

/-- The run from `s` ends as `Q` says if it succeeds, and as `E` says if it stops. -/
def Ends (E : Error → σ → Prop) (Q : α → σ → Prop) (x : ExceptT Error (StateM σ) α) (s : σ) : Prop :=
  match x.run.run s with
  | (.ok a, t) => Q a t
  | (.error e, t) => E e t

section

variable {E : Error → σ → Prop} {Q : α → σ → Prop} {s : σ}

theorem Ends.of_returns {x : ExceptT Error (StateM σ) α} {a : α} {t : σ} (h : Ends E Q x s)
    (run : Returns x s a t) : Q a t := by
  unfold Ends at h
  rwa [run] at h

theorem Ends.of_stops {x : ExceptT Error (StateM σ) α} {e : Error} {t : σ} (h : Ends E Q x s)
    (run : Stops x s e t) : E e t := by
  unfold Ends at h
  rwa [run] at h

theorem ends_of_returns {x : ExceptT Error (StateM σ) α} {a : α} {t : σ} (run : Returns x s a t)
    (h : Q a t) : Ends E Q x s := by
  unfold Ends
  rwa [run]

theorem ends_of_stops {x : ExceptT Error (StateM σ) α} {e : Error} {t : σ} (run : Stops x s e t)
    (h : E e t) : Ends E Q x s := by
  unfold Ends
  rwa [run]

theorem ends_pure {a : α} (h : Q a s) : Ends E Q (pure a) s := h

theorem ends_throw {e : Error} (h : E e s) : Ends E Q (throw e) s := h

theorem Ends.imp {E' : Error → σ → Prop} {Q' : α → σ → Prop} {x : ExceptT Error (StateM σ) α}
    (h : Ends E Q x s) (stops : ∀ e t, E e t → E' e t) (returns : ∀ a t, Q a t → Q' a t) :
    Ends E' Q' x s := by
  rcases returns_or_stops x s with ⟨a, t, run⟩ | ⟨e, t, run⟩
  · exact ends_of_returns run (returns a t (h.of_returns run))
  · exact ends_of_stops run (stops e t (h.of_stops run))

/-- What a run returned may be used to say how it ends. -/
theorem Ends.returns {x : ExceptT Error (StateM σ) α} (h : Ends E Q x s) :
    Ends E (fun a t => Returns x s a t ∧ Q a t) x s := by
  rcases returns_or_stops x s with ⟨a, t, run⟩ | ⟨e, t, run⟩
  · exact ends_of_returns run ⟨run, h.of_returns run⟩
  · exact ends_of_stops run (h.of_stops run)

theorem Ends.bind {P : β → σ → Prop} {x : ExceptT Error (StateM σ) β}
    {f : β → ExceptT Error (StateM σ) α} (first : Ends E P x s)
    (next : ∀ b t, P b t → Ends E Q (f b) t) : Ends E Q (x >>= f) s := by
  rcases returns_or_stops x s with ⟨b, t, run⟩ | ⟨e, t, run⟩
  · have rest := next b t (first.of_returns run)
    unfold Ends at rest ⊢
    rwa [run_bind, run]
  · exact ends_of_stops (stops_bind.2 (.inl run)) (first.of_stops run)

end

/-! ## What every run keeps -/

/-- Whether it succeeds or stops, the computation takes each state to a related one. -/
def Keeps (R : σ → σ → Prop) (x : ExceptT Error (StateM σ) α) : Prop :=
  ∀ s, R s (x.run.run s).2

variable {R : σ → σ → Prop}

theorem Keeps.of_returns {x : ExceptT Error (StateM σ) α} (h : Keeps R x) {s s' : σ} {a : α}
    (run : Returns x s a s') : R s s' := by
  have := h s
  rwa [run] at this

theorem Keeps.of_stops {x : ExceptT Error (StateM σ) α} (h : Keeps R x) {s s' : σ} {e : Error}
    (stop : Stops x s e s') : R s s' := by
  have := h s
  rwa [stop] at this

theorem keeps_modify {g : σ → σ} (h : ∀ s, R s (g s)) :
    Keeps R (modify g : ExceptT Error (StateM σ) PUnit) := h

section

variable [IsPreorder σ R]

theorem keeps_pure (a : α) : Keeps R (pure a : ExceptT Error (StateM σ) α) :=
  fun s => refl_of R s

theorem keeps_throw (e : Error) : Keeps R (throw e : ExceptT Error (StateM σ) α) :=
  fun s => refl_of R s

theorem keeps_get : Keeps R (get : ExceptT Error (StateM σ) σ) :=
  fun s => refl_of R s

theorem Keeps.bind {x : ExceptT Error (StateM σ) α} {f : α → ExceptT Error (StateM σ) β}
    (hx : Keeps R x) (hf : ∀ a, Keeps R (f a)) : Keeps R (x >>= f) := by
  intro s
  have first := hx s
  show R s (match x.run.run s with | (r, t) => (ExceptT.bindCont f r).run t).2
  rcases run : x.run.run s with ⟨_ | a, t⟩
  · rwa [run] at first
  · rw [run] at first
    exact trans_of R first (hf a t)

theorem Keeps.mapM {f : α → ExceptT Error (StateM σ) β} (h : ∀ a, Keeps R (f a)) (xs : List α) :
    Keeps R (xs.mapM f) := by
  induction xs with
  | nil => exact keeps_pure []
  | cons x xs ih =>
    rw [List.mapM_cons]
    exact (h x).bind fun y => ih.bind fun ys => keeps_pure _

theorem Keeps.forM {f : α → ExceptT Error (StateM σ) PUnit} (h : ∀ a, Keeps R (f a))
    (xs : List α) : Keeps R (xs.forM f) := by
  induction xs with
  | nil => exact keeps_pure _
  | cons x xs ih => exact (h x).bind fun _ => ih

theorem Keeps.foldlM {f : β → α → ExceptT Error (StateM σ) β} (h : ∀ b a, Keeps R (f b a))
    (xs : List α) (b : β) : Keeps R (xs.foldlM f b) := by
  induction xs generalizing b with
  | nil => exact keeps_pure b
  | cons x xs ih =>
    rw [List.foldlM_cons]
    exact (h b x).bind fun b => ih b

/-- What each element's own run establishes, and later runs keep, holds at the end of all. -/
theorem Returns.forall₂_of_mapM {I : σ → Prop} {P : α → β → σ → Prop}
    {f : α → ExceptT Error (StateM σ) β} (keeps : ∀ x, Keeps R (f x))
    (inv : ∀ {s t}, R s t → I s → I t) (mono : ∀ {x y s t}, R s t → P x y s → P x y t)
    {xs : List α} (each : ∀ x ∈ xs, ∀ {s y t}, I s → Returns (f x) s y t → P x y t)
    {s s' : σ} {ys : List β} (start : I s) (run : Returns (xs.mapM f) s ys s') :
    List.Forall₂ (fun x y => P x y s') xs ys := by
  induction xs generalizing s ys with
  | nil =>
    obtain ⟨rfl, rfl⟩ := returns_mapM_nil.1 run
    exact .nil
  | cons x xs ih =>
    obtain ⟨y, t, first, ys, rest, rfl⟩ := returns_mapM_cons.1 run
    have later := (Keeps.mapM keeps xs).of_returns rest
    have next := inv ((keeps x).of_returns first) start
    exact .cons (mono later (each x List.mem_cons_self start first))
      (ih (fun z hz => each z (List.mem_cons_of_mem x hz)) next rest)

end

/-! ## Runs that follow others -/

/-- Where `x` succeeds, `y` succeeds from every related state, and the results and states they leave are
related again. -/
def Follows (R : σ → σ → Prop) (S : α → β → Prop) (x : ExceptT Error (StateM σ) α)
    (y : ExceptT Error (StateM σ) β) : Prop :=
  ∀ ⦃s t a s'⦄, R s t → Returns x s a s' → ∃ b t', Returns y t b t' ∧ S a b ∧ R s' t'

section

variable {γ δ : Type} {S : α → β → Prop} {P : γ → δ → Prop}

theorem follows_pure {a : α} {b : β} (h : S a b) : Follows R S (pure a) (pure b) := by
  intro s t _ _ related run
  obtain ⟨rfl, rfl⟩ := returns_pure.1 run
  exact ⟨b, t, returns_pure.2 ⟨rfl, rfl⟩, h, related⟩

theorem follows_throw {e : Error} {y : ExceptT Error (StateM σ) β} :
    Follows R S (throw e) y :=
  fun _ _ _ _ _ run => (returns_throw.1 run).elim

theorem follows_get : Follows R R get get := by
  intro s t _ _ related run
  obtain ⟨rfl, rfl⟩ := returns_get.1 run
  exact ⟨t, t, returns_get.2 ⟨rfl, rfl⟩, related, related⟩

theorem Follows.bind {x : ExceptT Error (StateM σ) γ} {y : ExceptT Error (StateM σ) δ}
    {f : γ → ExceptT Error (StateM σ) α} {g : δ → ExceptT Error (StateM σ) β}
    (first : Follows R P x y) (next : ∀ c d, P c d → Follows R S (f c) (g d)) :
    Follows R S (x >>= f) (y >>= g) := by
  intro s t a s' related run
  obtain ⟨c, u, head, run⟩ := returns_bind.1 run
  obtain ⟨d, v, head', alike, related⟩ := first related head
  obtain ⟨b, t', rest', alike', related⟩ := next c d alike related run
  exact ⟨b, t', returns_bind.2 ⟨d, v, head', rest'⟩, alike', related⟩

theorem Follows.mapM {f : γ → ExceptT Error (StateM σ) α} {g : δ → ExceptT Error (StateM σ) β}
    (each : ∀ x y, P x y → Follows R S (f x) (g y)) {xs : List γ} {ys : List δ}
    (alike : List.Forall₂ P xs ys) : Follows R (List.Forall₂ S) (xs.mapM f) (ys.mapM g) := by
  induction alike with
  | nil => exact follows_pure .nil
  | cons first _ ih =>
    rw [List.mapM_cons, List.mapM_cons]
    exact (each _ _ first).bind fun _ _ head => ih.bind fun _ _ rest => follows_pure (.cons head rest)

theorem Follows.forM {f : γ → ExceptT Error (StateM σ) PUnit}
    {g : δ → ExceptT Error (StateM σ) PUnit}
    (each : ∀ x y, P x y → Follows R (fun _ _ => True) (f x) (g y)) {xs : List γ} {ys : List δ}
    (alike : List.Forall₂ P xs ys) : Follows R (fun _ _ => True) (xs.forM f) (ys.forM g) := by
  induction alike with
  | nil => exact follows_pure trivial
  | cons first _ ih => exact (each _ _ first).bind fun _ _ _ => ih

/-- Going through one list twice, a step follows its own. -/
theorem Follows.mapM_self {f : γ → ExceptT Error (StateM σ) α} {g : γ → ExceptT Error (StateM σ) β}
    (each : ∀ x, Follows R S (f x) (g x)) (xs : List γ) :
    Follows R (List.Forall₂ S) (xs.mapM f) (xs.mapM g) :=
  Follows.mapM (fun x _ same => same ▸ each x) (List.forall₂_same.2 fun _ _ => rfl)

theorem Follows.forM_self {f g : γ → ExceptT Error (StateM σ) PUnit}
    (each : ∀ x, Follows R (fun _ _ => True) (f x) (g x)) (xs : List γ) :
    Follows R (fun _ _ => True) (xs.forM f) (xs.forM g) :=
  Follows.forM (fun x _ same => same ▸ each x) (List.forall₂_same.2 fun _ _ => rfl)

theorem Follows.foldlM {f : α → γ → ExceptT Error (StateM σ) α}
    {g : β → γ → ExceptT Error (StateM σ) β}
    (each : ∀ a b x, S a b → Follows R S (f a x) (g b x)) {a : α} {b : β} (alike : S a b)
    (xs : List γ) : Follows R S (xs.foldlM f a) (xs.foldlM g b) := by
  induction xs generalizing a b with
  | nil => exact follows_pure alike
  | cons x xs ih =>
    rw [List.foldlM_cons, List.foldlM_cons]
    exact (each a b x alike).bind fun _ _ alike => ih alike

end

end DeclArchive
