import DeclArchive.Proofs.Stored
import Mathlib.Data.List.Infix
import Mathlib.Data.Set.Basic
import Mathlib.Order.Bounds.Basic
import Mathlib.Order.Interval.Set.Defs

/-!
# Where the initializers of a class are

The texts that begin with `init` lie side by side in the order of texts (`prefix_of_between`). So where
each method is shown under a name that begins with `init` just if its selector does, the initializers form
one block once the methods are sorted, and the stored place is the first one of it. In any list the place
is that of the first initializer, and the log says if another method stands between two of them
(`initializers_placed`).
-/

namespace DeclArchive

/-! ## Gaps -/

section

variable {α : Type} {p : α → Bool} {xs : List α} {first : Nat}

/-- Something else stands between two values that have the property. -/
def Gap (p : α → Bool) (xs : List α) : Prop :=
  ∃ a b c, [a, b, c].Sublist xs ∧ p a ∧ ¬ p b ∧ p c

/-- All values with the property come before all others. -/
def Leading (p : α → Bool) (xs : List α) : Prop :=
  xs.Pairwise fun x y => p y → p x

theorem leading_cons_of_pos {x : α} (h : p x) : Leading p (x :: xs) ↔ Leading p xs :=
  ⟨fun lead => lead.of_cons, fun lead => .cons (fun _ _ _ => h) lead⟩

/-- If the first value is another one, all are. -/
theorem leading_cons_of_neg {x : α} (h : ¬ p x) : Leading p (x :: xs) ↔ xs.countP p = 0 := by
  rw [List.countP_eq_zero]
  constructor
  · exact fun lead y mem hy => h (List.rel_of_pairwise_cons lead mem hy)
  · intro none
    refine .cons (fun y mem hy => (none y mem hy).elim) (List.pairwise_of_forall_mem_list ?_)
    exact fun _ _ y mem hy => (none y mem hy).elim

/-- The values with the property at the beginning are all of them just if none stands behind another
value. -/
theorem length_takeWhile_eq_countP : (xs.takeWhile p).length = xs.countP p ↔ Leading p xs := by
  induction xs with
  | nil => exact iff_of_true rfl .nil
  | cons x xs ih =>
    by_cases h : p x
    · rw [List.takeWhile_cons_of_pos h, List.countP_cons_of_pos h, List.length_cons,
        Nat.add_right_cancel_iff, ih, leading_cons_of_pos h]
    · rw [List.takeWhile_cons_of_neg h, List.countP_cons_of_neg h, leading_cons_of_neg h]
      exact eq_comm

theorem countP_dropWhile_not : (xs.dropWhile fun x => !p x).countP p = xs.countP p := by
  induction xs with
  | nil => rfl
  | cons x xs ih =>
    by_cases h : p x
    · rw [List.dropWhile_cons_of_neg (by simp [h])]
    · rw [List.dropWhile_cons_of_pos (by simp [h]), ih, List.countP_cons_of_neg h]

/-- There is no gap just if none follows the first value with the property. -/
theorem leading_dropWhile_not : Leading p (xs.dropWhile fun x => !p x) ↔ ¬ Gap p xs := by
  induction xs with
  | nil => exact iff_of_true .nil fun ⟨_, _, _, sub, _⟩ => nomatch sub
  | cons x xs ih =>
    by_cases h : p x
    · rw [List.dropWhile_cons_of_neg (by simp [h]), leading_cons_of_pos h, Leading,
        List.pairwise_iff_forall_sublist]
      constructor
      · rintro lead ⟨a, b, c, sub, -, hb, hc⟩
        exact hb (lead sub.tail hc)
      · intro noGap b c sub hc
        by_contra hb
        exact noGap ⟨x, b, c, sub.cons_cons x, h, hb, hc⟩
    · rw [List.dropWhile_cons_of_pos (by simp [h]), ih, not_iff_not]
      constructor
      · rintro ⟨a, b, c, sub, rest⟩
        exact ⟨a, b, c, sub.cons x, rest⟩
      · rintro ⟨a, b, c, sub, ha, rest⟩
        obtain sub | ⟨rfl, -⟩ := List.cons_sublist_cons'.1 sub
        · exact ⟨a, b, c, sub, ha, rest⟩
        · exact (h ha).elim

/-! ## Places -/

/-- The places of the values that have the property. -/
def placesOf (p : α → Bool) (xs : List α) : Set Nat := {i | ∃ x, xs[i]? = some x ∧ p x}

theorem findIdx?_eq_some_iff_isLeast : xs.findIdx? p = some first ↔ IsLeast (placesOf p xs) first := by
  rw [List.findIdx?_eq_some_iff_getElem]
  constructor
  · rintro ⟨lt, here, before⟩
    refine ⟨⟨_, List.getElem?_eq_getElem lt, here⟩, fun j ⟨x, there, hx⟩ => ?_⟩
    obtain ⟨lt', rfl⟩ := List.getElem?_eq_some_iff.1 there
    exact Nat.not_lt.1 fun earlier => before j earlier hx
  · rintro ⟨⟨x, there, hx⟩, least⟩
    obtain ⟨lt, rfl⟩ := List.getElem?_eq_some_iff.1 there
    refine ⟨lt, hx, fun j earlier hj => ?_⟩
    exact Nat.not_le.2 earlier (least ⟨_, List.getElem?_eq_getElem (earlier.trans lt), hj⟩)

theorem findIdx?_eq_none_iff_empty : xs.findIdx? p = none ↔ placesOf p xs = ∅ := by
  rw [List.findIdx?_eq_none_iff, Set.eq_empty_iff_forall_notMem]
  constructor
  · rintro none i ⟨x, there, hx⟩
    rw [none x (List.mem_of_getElem? there)] at hx
    cases hx
  · intro none x mem
    obtain ⟨i, there⟩ := List.getElem?_of_mem mem
    exact Bool.eq_false_iff.2 fun hx => none i ⟨x, there, hx⟩

/-- Where they come first, the values with the property are at the first places. -/
theorem Leading.mem_placesOf (lead : Leading p xs) {i : Nat} :
    i ∈ placesOf p xs ↔ i < xs.countP p := by
  induction xs generalizing i with
  | nil => exact iff_of_false (fun ⟨_, there, _⟩ => nomatch there) (Nat.not_lt_zero i)
  | cons x xs ih =>
    by_cases h : p x
    · rw [List.countP_cons_of_pos h]
      cases i with
      | zero => exact iff_of_true ⟨x, rfl, h⟩ (Nat.succ_pos _)
      | succ i => exact (ih ((leading_cons_of_pos h).1 lead)).trans Nat.succ_lt_succ_iff.symm
    · have none : (x :: xs).countP p = 0 := by
        rw [List.countP_cons_of_neg h, (leading_cons_of_neg h).1 lead]
      rw [none]
      refine iff_of_false ?_ (Nat.not_lt_zero i)
      rintro ⟨y, there, hy⟩
      exact List.countP_eq_zero.1 none y (List.mem_of_getElem? there) hy

/-- Without a gap, the values with the property are one block. -/
theorem mem_placesOf_of_not_gap (noGap : ¬ Gap p xs) (found : xs.findIdx? p = some first) {i : Nat} :
    i ∈ placesOf p xs ↔ first ≤ i ∧ i < first + xs.countP p := by
  induction xs generalizing first i with
  | nil => cases found
  | cons x xs ih =>
    rw [List.findIdx?_cons] at found
    by_cases h : p x
    · rw [if_pos h] at found
      cases found
      rw [← leading_dropWhile_not, List.dropWhile_cons_of_neg (by simp [h])] at noGap
      rw [Leading.mem_placesOf noGap, Nat.zero_add]
      exact (and_iff_right (Nat.zero_le i)).symm
    · rw [if_neg h] at found
      obtain ⟨later, found', rfl⟩ := Option.map_eq_some_iff.1 found
      rw [← leading_dropWhile_not, List.dropWhile_cons_of_pos (by simp [h]),
        leading_dropWhile_not] at noGap
      rw [List.countP_cons_of_neg h]
      cases i with
      | zero => exact iff_of_false (fun ⟨y, here, hy⟩ => h (Option.some.inj here ▸ hy)) (by omega)
      | succ i =>
        refine (ih noGap found' (i := i)).trans ?_
        omega

end

/-! ## Sorting -/

/-- A text that stands between two that begin alike begins like them. -/
theorem prefix_of_between {p a b c : List Char} (ab : ¬ b < a) (bc : ¬ c < b) (pa : p <+: a)
    (pc : p <+: c) : p <+: b := by
  induction p generalizing a b c with
  | nil => exact List.nil_prefix
  | cons x p ih =>
    obtain ⟨a, rfl⟩ := pa
    obtain ⟨c, rfl⟩ := pc
    rw [List.cons_append] at ab bc
    cases b with
    | nil => exact (ab (List.nil_lt_cons ..)).elim
    | cons y b =>
      rw [List.cons_lt_cons_iff, not_or] at ab bc
      obtain rfl : x = y := Char.le_antisymm (Char.not_lt.1 ab.1) (Char.not_lt.1 bc.1)
      refine List.cons_prefix_cons.2 ⟨rfl, ih ?_ ?_ ⟨a, rfl⟩ ⟨c, rfl⟩⟩
      · exact fun before => ab.2 ⟨rfl, before⟩
      · exact fun before => bc.2 ⟨rfl, before⟩

/-- The method is shown under a name that begins with `init`. -/
def Method.isShownInitializer (m : Method) : Bool :=
  "init".toList.isPrefixOf m.info.publicName.toList

/-- A method that is shown under its selector is shown as what it is. -/
theorem Method.isShownInitializer_eq {m : Method} (same : ¬ m.info.hasDistinctName) :
    m.isShownInitializer = m.isInitializer := by
  have name : m.info.publicName = m.info.name := by simpa [Info.hasDistinctName] using same
  rw [isShownInitializer, name, isInitializer]

theorem not_gap_sorted {methods : List Method}
    (shown : ∀ m ∈ methods, m.isShownInitializer = m.isInitializer) :
    ¬ Gap Method.isInitializer (sortByPublicName Method.info methods) := by
  rintro ⟨a, b, c, sub, ha, hb, hc⟩
  have begins {m : Method} (mem : m ∈ [a, b, c]) :
      m.isInitializer ↔ "init".toList <+: m.info.publicName.toList := by
    rw [← shown m (mem_sortByPublicName.1 (sub.mem mem)), Method.isShownInitializer,
      List.isPrefixOf_iff_prefix]
  have sorted := (stablySorted_sortByPublicName Method.info methods).sorted.sublist sub
  have ab : ¬ b.info.publicName < a.info.publicName :=
    String.not_lt.2 (List.rel_of_pairwise_cons sorted (by simp))
  have bc : ¬ c.info.publicName < b.info.publicName :=
    String.not_lt.2 (List.rel_of_pairwise_cons sorted.of_cons (by simp))
  exact hb ((begins (by simp)).2
    (prefix_of_between ab bc ((begins (by simp)).1 ha) ((begins (by simp)).1 hc)))

theorem countP_sortByPublicName (methods : List Method) :
    (sortByPublicName Method.info methods).countP Method.isInitializer =
      methods.countP Method.isInitializer :=
  (List.mergeSort_perm methods _).countP_eq _

/-! ## What is returned and what is logged -/

variable {methods : List Method} {index : Int16} {w w' : Writer}

theorem noteInitializers_run (methods : List Method) (w : Writer) :
    (noteInitializers methods).run.run w = (initializerIndex methods,
      match initializerWarning? methods with
      | none => w
      | some warning => { w with log := w.log.push warning }) := by
  unfold noteInitializers
  cases initializerWarning? methods <;> cases initializerIndex methods <;> rfl

theorem noteInitializers_index (run : Returns (noteInitializers methods) w index w') :
    initializerIndex methods = .ok index := by
  rw [Returns, noteInitializers_run] at run
  exact congrArg Prod.fst run

theorem toInt_initializerIndex (h : initializerIndex methods = .ok index) :
    index.toInt = (methods.findIdx? Method.isInitializer).elim (-1) Int.ofNat := by
  unfold initializerIndex firstInitializer? at h
  cases first : methods.findIdx? Method.isInitializer with
  | none =>
    rw [first] at h
    cases h
    rfl
  | some i =>
    rw [first] at h
    dsimp only at h
    split_ifs at h with small
    cases h
    exact Int16.toInt_ofNat_of_lt (Nat.lt_of_le_of_lt small (by decide))

theorem initializerWarning?_eq (methods : List Method) :
    initializerWarning? methods =
      if firstInitializerRun methods = methods.countP Method.isInitializer then none
      else some (.scatteredInitializers (firstInitializerRun methods)
        (methods.countP Method.isInitializer)) := rfl

theorem firstInitializerRun_eq_countP :
    firstInitializerRun methods = methods.countP Method.isInitializer ↔
      ¬ Gap Method.isInitializer methods := by
  rw [firstInitializerRun, ← countP_dropWhile_not, length_takeWhile_eq_countP,
    leading_dropWhile_not]

theorem initializerIndex_of_isLeast {first : Nat}
    (least : IsLeast (placesOf Method.isInitializer methods) first) :
    initializerIndex methods =
      if first ≤ 32767 then .ok (Int16.ofNat first) else .error (.countOverflow first 2) := by
  rw [initializerIndex, firstInitializer?, findIdx?_eq_some_iff_isLeast.2 least]

theorem initializerIndex_of_empty (none : placesOf Method.isInitializer methods = ∅) :
    initializerIndex methods = .ok (-1) := by
  rw [initializerIndex, firstInitializer?, findIdx?_eq_none_iff_empty.2 none]

/-- There is a first initializer or none. -/
theorem empty_or_isLeast (methods : List Method) :
    placesOf Method.isInitializer methods = ∅ ∨
      ∃ first, IsLeast (placesOf Method.isInitializer methods) first := by
  cases found : methods.findIdx? Method.isInitializer with
  | none => exact .inl (findIdx?_eq_none_iff_empty.1 found)
  | some first => exact .inr ⟨first, findIdx?_eq_some_iff_isLeast.1 found⟩

/-- What is to be returned and logged about the initializers among methods. -/
structure InitializersNoted (methods : List Method) (w : Writer) (found : Except Error Int16)
    (w' : Writer) : Prop where
  none : found = .ok (-1) ↔ placesOf Method.isInitializer methods = ∅
  first : ∀ first ≤ 32767, IsLeast (placesOf Method.isInitializer methods) first →
    ∃ index, found = .ok index ∧ index.toInt = first
  tooFar : ∀ e, found = .error e ↔
    ∃ first > 32767, IsLeast (placesOf Method.isInitializer methods) first ∧ e = .countOverflow first 2
  quiet : ¬ Gap Method.isInitializer methods → w' = w
  warned : Gap Method.isInitializer methods → w' = { w with
    log := w.log.push (.scatteredInitializers (firstInitializerRun methods)
      (methods.countP Method.isInitializer)) }

theorem initializers_noted (methods : List Method) (w : Writer) :
    ∃ found w', (noteInitializers methods).run.run w = (found, w') ∧
      InitializersNoted methods w found w' := by
  refine ⟨_, _, noteInitializers_run methods w, ?_, ?_, ?_, ?_, ?_⟩
  · refine ⟨fun found => ?_, initializerIndex_of_empty⟩
    obtain none | ⟨first, least⟩ := empty_or_isLeast methods
    · exact none
    · -- the place of an initializer is not negative
      have place := toInt_initializerIndex found
      rw [findIdx?_eq_some_iff_isLeast.2 least] at place
      cases place
  · intro first small least
    rw [initializerIndex_of_isLeast least, if_pos small]
    exact ⟨_, rfl, Int16.toInt_ofNat_of_lt (by omega)⟩
  · intro e
    constructor
    · intro failed
      obtain none | ⟨first, least⟩ := empty_or_isLeast methods
      · rw [initializerIndex_of_empty none] at failed
        cases failed
      · rw [initializerIndex_of_isLeast least] at failed
        split_ifs at failed with small
        exact ⟨first, Nat.not_le.1 small, least, (Except.error.inj failed).symm⟩
    · rintro ⟨first, far, least, rfl⟩
      rw [initializerIndex_of_isLeast least, if_neg (Nat.not_le.2 far)]
  · intro noGap
    rw [initializerWarning?_eq, if_pos (firstInitializerRun_eq_countP.2 noGap)]
  · intro gap
    rw [initializerWarning?_eq, if_neg fun all => firstInitializerRun_eq_countP.1 all gap]

/-- **Where the initializers of a class are.** In any list of methods the place found is that of the first
initializer, and the log has a warning just if another method stands between two of them. If each method is
shown under a name that begins with `init` just if its selector does, then the sorted methods have their
initializers in one block from that place on, and there is no warning. -/
theorem initializers_placed (methods : List Method) (w : Writer) :
    (∃ found w', (noteInitializers methods).run.run w = (found, w') ∧
      InitializersNoted methods w found w') ∧
    ((∀ m ∈ methods, m.isShownInitializer = m.isInitializer) →
      let sorted := sortByPublicName Method.info methods
      ∃ found, (noteInitializers sorted).run.run w = (found, w) ∧
        InitializersNoted sorted w found w ∧
          ∀ first, IsLeast (placesOf Method.isInitializer sorted) first →
            placesOf Method.isInitializer sorted =
              Set.Ico first (first + methods.countP Method.isInitializer)) := by
  refine ⟨initializers_noted methods w, fun shown => ?_⟩
  have noGap := not_gap_sorted shown
  obtain ⟨found, w', run, noted⟩ :=
    initializers_noted (sortByPublicName Method.info methods) w
  obtain rfl := noted.quiet noGap
  refine ⟨found, run, noted, fun first least => Set.ext fun i => ?_⟩
  rw [mem_placesOf_of_not_gap noGap (findIdx?_eq_some_iff_isLeast.2 least), countP_sortByPublicName]
  rfl

namespace Sample

/-- Four methods, one of them shown under another name than its selector. -/
def coder : List Method :=
  [⟨{ name := "zone" }, {}, [], ""⟩,
    ⟨{ name := "initWithCoder:", alias? := some "initWithCoder" }, {}, [], ""⟩,
    ⟨{ name := "alloc" }, {}, [], ""⟩, ⟨{ name := "init" }, {}, [], ""⟩]

theorem isShownInitializer_coder : ∀ m ∈ coder, m.isShownInitializer = m.isInitializer := by
  unfold coder
  simp only [List.forall_mem_cons]
  have same : ∀ name, Method.isShownInitializer ⟨{ name }, {}, [], ""⟩ =
      Method.isInitializer ⟨{ name }, {}, [], ""⟩ := fun name =>
    Method.isShownInitializer_eq (by simp [Info.hasDistinctName, Info.publicName])
  refine ⟨?_, ?_, ?_, ?_, ?_⟩
  · exact same "zone"
  · simp [Method.isShownInitializer, Method.isInitializer, Info.publicName]
  · exact same "alloc"
  · exact same "init"
  · intro m mem
    cases mem

theorem isLeast_coder :
    IsLeast (placesOf Method.isInitializer (sortByPublicName Method.info coder)) 1 := by
  have sorted : sortByPublicName Method.info coder = [coder[2], coder[3], coder[1], coder[0]] := by
    simp [sortByPublicName, coder, List.mergeSort, List.MergeSort.Internal.splitInTwo,
      Info.publicName]
  rw [← findIdx?_eq_some_iff_isLeast, sorted]
  rfl

end Sample

/-- Two initializers stand behind `alloc`, and before `zone`. -/
theorem initializers_placed_coder :
    (∀ m ∈ Sample.coder, m.isShownInitializer = m.isInitializer) ∧
      placesOf Method.isInitializer (sortByPublicName Method.info Sample.coder) = Set.Ico 1 3 := by
  have shown := Sample.isShownInitializer_coder
  obtain ⟨_, -, -, block⟩ := (initializers_placed Sample.coder { format := .standard }).2 shown
  exact ⟨shown, block 1 Sample.isLeast_coder⟩

end DeclArchive
