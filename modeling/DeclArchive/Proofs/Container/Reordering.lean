import DeclArchive.Container.Save
import DeclArchive.Proofs.Stored
import Mathlib.Data.List.Sort

/-!
# The order of collection

A front end may collect the members of a class in any order. Members are sorted before anything of
them is written, and there is only one way to sort values by public name that keeps those with one name
in order (`StablySorted.unique`). So a forest whose classes list their members and protocols in another
order, members with one name apart, becomes the same container, or is refused with the same error
(`toBytes_reordered`).
-/

namespace DeclArchive

/-! ## Sorting in one way -/

section

variable {α : Type} {info : α → Info} {xs ys zs : List α}

theorem le_of_mem_sorted {x y : α}
    (sorted : (y :: ys).Pairwise fun x y => (info x).publicName ≤ (info y).publicName)
    (hx : x ∈ y :: ys) : (info y).publicName ≤ (info x).publicName := by
  obtain rfl | later := List.mem_cons.1 hx
  · exact String.le_refl _
  · exact List.rel_of_pairwise_cons sorted later

/-- Sorted lists that hold the same values of each name, in the same order, are equal. -/
theorem eq_of_sorted_of_filter_eq
    (hys : ys.Pairwise fun x y => (info x).publicName ≤ (info y).publicName)
    (hzs : zs.Pairwise fun x y => (info x).publicName ≤ (info y).publicName)
    (same : ∀ name, (ys.filter fun x => (info x).publicName = name) =
      zs.filter fun x => (info x).publicName = name) : ys = zs := by
  induction ys generalizing zs with
  | nil =>
    cases zs with
    | nil => rfl
    | cons z zs =>
      have : z ∈ [] := mem_of_filter_eq (fun name => (same name).symm) List.mem_cons_self
      cases this
  | cons y ys ih =>
    cases zs with
    | nil =>
      have : y ∈ [] := mem_of_filter_eq same List.mem_cons_self
      cases this
    | cons z zs =>
      -- each head is in the other list, so the heads have one name, and are the first with it
      have hz : z ∈ y :: ys := mem_of_filter_eq (fun name => (same name).symm) List.mem_cons_self
      have hy : y ∈ z :: zs := mem_of_filter_eq same List.mem_cons_self
      have name : (info z).publicName = (info y).publicName :=
        String.le_antisymm (le_of_mem_sorted hzs hy) (le_of_mem_sorted hys hz)
      have first := same (info y).publicName
      rw [List.filter_cons_of_pos (by simp), List.filter_cons_of_pos (by simp [name])] at first
      obtain ⟨rfl, -⟩ := List.cons.inj first
      congr 1
      apply ih hys.of_cons hzs.of_cons
      intro n
      have all := same n
      by_cases h : (info y).publicName = n
      · simpa [h] using all
      · simpa [h] using all

/-- **There is one way to sort** by public name and keep the order of values with one name. -/
theorem StablySorted.unique (h : StablySorted info xs ys) (k : StablySorted info xs zs) : ys = zs :=
  eq_of_sorted_of_filter_eq h.sorted k.sorted fun name => (h.stable name).trans (k.stable name).symm

/-- The values in another order, in which those with one public name stay in order. -/
structure Reordered (info : α → Info) (xs ys : List α) : Prop where
  perm : ys.Perm xs
  stable : ∀ name, (ys.filter fun x => (info x).publicName = name) =
    xs.filter fun x => (info x).publicName = name

theorem Reordered.sortByPublicName_eq (h : Reordered info xs ys) :
    sortByPublicName info ys = sortByPublicName info xs := by
  have sort := stablySorted_sortByPublicName info ys
  have : StablySorted info xs (sortByPublicName info ys) :=
    ⟨sort.sorted, fun name => (sort.stable name).trans (h.stable name)⟩
  exact this.unique (stablySorted_sortByPublicName info xs)

end

/-- However names are put in order, equal ones cannot be told apart. -/
theorem eq_sortNames {names sorted : List String} (perm : sorted.Perm names)
    (order : sorted.Pairwise (· ≤ ·)) : sorted = sortNames names :=
  (perm.trans (sortNames_perm names).symm).eq_of_pairwise (fun _ _ _ _ => String.le_antisymm) order
    (pairwise_sortNames names)

theorem sortNames_eq_of_perm {names names' : List String} (h : names'.Perm names) :
    sortNames names' = sortNames names :=
  eq_sortNames ((sortNames_perm names').trans h) (pairwise_sortNames names')

/-! ## Declarations -/

/-- Members that were collected in another order. -/
structure Members.Reordered (m m' : Members) : Prop where
  instanceMethods : DeclArchive.Reordered Method.info m.instanceMethods m'.instanceMethods
  staticMethods : DeclArchive.Reordered Method.info m.staticMethods m'.staticMethods
  properties : DeclArchive.Reordered Property.info m.properties m'.properties
  protocols : m'.protocols.Perm m.protocols

/-- A body whose members, if it is that of an interface or a protocol, were collected in another
order. -/
inductive Body.Reordered : Body → Body → Prop
  | same (b : Body) : Reordered b b
  | interface (base? : Option String) {m m' : Members} (members : m.Reordered m') :
    Reordered (.interface base? m) (.interface base? m')
  | protocol {m m' : Members} (members : m.Reordered m') :
    Reordered (.protocol m) (.protocol m')

/-- A declaration whose members were collected in another order. -/
structure Declaration.Reordered (d d' : Declaration) : Prop where
  info : d'.info = d.info
  body : d.body.Reordered d'.body

theorem Members.Reordered.write_eq {m m' : Members} (h : m.Reordered m') (module : UInt16) :
    m'.write module = m.write module := by
  unfold Members.write
  rw [h.instanceMethods.sortByPublicName_eq, h.staticMethods.sortByPublicName_eq,
    h.properties.sortByPublicName_eq, sortNames_eq_of_perm h.protocols]

namespace Declaration.Reordered

variable {d d' : Declaration}

theorem kind_eq (h : d.Reordered d') : d'.body.kind = d.body.kind := by
  rcases d with ⟨info, body⟩
  rcases d' with ⟨info', body'⟩
  cases h.body <;> rfl

theorem isCategory_eq (h : d.Reordered d') : d'.isCategory = d.isCategory := by
  simp only [isCategory, h.kind_eq]

theorem write_eq (h : d.Reordered d') (module : UInt16) : d'.write module = d.write module := by
  rcases d with ⟨info, body⟩
  rcases d' with ⟨info', body'⟩
  obtain ⟨rfl, body⟩ := h
  cases body with
  | same => rfl
  | interface base? members =>
    simp only [write, members.write_eq module]
  | protocol members =>
    simp only [write, members.write_eq module]

theorem declare_eq (h : d.Reordered d') (module : UInt16) :
    Build.declare module d' = Build.declare module d := by
  unfold Build.declare
  rw [h.write_eq module, h.info, h.kind_eq]

end Declaration.Reordered

/-! ## Forests -/

/-- A forest whose members were collected in another order. Modules list the same positions. -/
structure Forest.Reordered (forest forest' : Forest) : Prop where
  modules : forest'.modules = forest.modules
  declarations : List.Forall₂ Declaration.Reordered forest.declarations.items.toList
    forest'.declarations.items.toList

namespace Forest.Reordered

variable {forest forest' : Forest} (h : forest.Reordered forest')

include h

theorem get?_rel (id : DeclId) :
    Option.Rel Declaration.Reordered (forest.get? id) (forest'.get? id) := by
  have all := h.declarations
  unfold Forest.get? Arena.get?
  rw [← Array.getElem?_toList, ← Array.getElem?_toList]
  generalize forest.declarations.items.toList = ds at all ⊢
  generalize forest'.declarations.items.toList = ds' at all ⊢
  generalize id.toNat = i
  induction all generalizing i with
  | nil => exact .none
  | cons first _ ih =>
    cases i with
    | zero => exact .some first
    | succ i => exact ih i

theorem declareModule_eq (table : ModuleNames) (m : Module) :
    declareModule forest' table m = declareModule forest table m := by
  unfold declareModule
  cases table.place? m.topLevel with
  | none => rfl
  | some place =>
    refine congrArg m.declarations.toList.forM (funext fun id => ?_)
    have found := h.get?_rel id
    generalize forest.get? id = d? at found ⊢
    generalize forest'.get? id = d?' at found ⊢
    cases found with
    | none => rfl
    | some related => simp only [related.declare_eq place]

theorem buildParts_eq : buildParts forest' = buildParts forest := by
  have each : declareModule forest' = declareModule forest := by
    funext table m
    exact h.declareModule_eq table m
  unfold buildParts ModuleNames.write
  rw [each, h.modules]

theorem storable_rel : List.Forall₂ Declaration.Reordered forest.storable forest'.storable := by
  have listed : List.Forall₂ (fun l l' : Module × Option Declaration =>
      Option.Rel Declaration.Reordered l.2 l'.2) forest.listed forest'.listed := by
    unfold Forest.listed
    rw [h.modules]
    refine List.rel_flatMap (List.forall₂_same.2 fun _ _ => rfl) ?_
    rintro m _ rfl
    refine List.rel_map ?_ (List.forall₂_same.2 fun _ _ => rfl)
    rintro id _ rfl
    exact h.get?_rel id
  refine List.rel_filter ?_ (List.rel_filterMap (fun _ _ related => related) listed)
  intro d d' related
  simp [related.isCategory_eq]

/-- The same heap and the same tables are built, with the same log, or the same error stops it. -/
theorem build_eq (widths : Widths) : forest'.build widths = forest.build widths := by
  unfold Forest.build
  rw [h.buildParts_eq, h.storable_rel.length_eq]

theorem save_eq (widths : Widths) (stream : Stream) :
    forest'.save widths stream = forest.save widths stream := by
  unfold Forest.save
  rw [h.build_eq widths]

end Forest.Reordered

/-- **The order of collection leaves no trace.** Put the methods and properties of interfaces and
protocols in another order, those with one public name apart, and the protocol names in any: the
container has the same bytes, or the save fails with the same error. -/
theorem toBytes_reordered {forest forest' : Forest} (h : forest.Reordered forest')
    (widths : Widths) : forest'.toBytes widths = forest.toBytes widths := by
  unfold Forest.toBytes
  rw [h.save_eq widths]

namespace Sample

/-- A class with these methods and protocols. -/
def view (methods : List Method) (protocols : List String) : Forest where
  declarations := ⟨#[⟨{ name := "NSView" },
    .interface (some "NSResponder") { instanceMethods := methods, protocols }⟩]⟩
  modules := #[⟨"AppKit", #[0]⟩]

/-- A method that returns nothing. -/
def shownAs (name publicName : String) : Method :=
  { info := { name, alias? := some publicName }, signature := [.scalar .void] }

/-- Of three methods two have one public name, and stay in order. -/
theorem view_reordered :
    (view [shownAs "init" "init", shownAs "draw" "draw", shownAs "draw:" "draw"] ["P", "Q"]).Reordered
      (view [shownAs "draw" "draw", shownAs "init" "init", shownAs "draw:" "draw"] ["Q", "P"]) := by
  have same {α : Type} {info : α → Info} : DeclArchive.Reordered info [] [] := ⟨.refl _, fun _ => rfl⟩
  have methods : DeclArchive.Reordered Method.info
      [shownAs "init" "init", shownAs "draw" "draw", shownAs "draw:" "draw"]
      [shownAs "draw" "draw", shownAs "init" "init", shownAs "draw:" "draw"] := by
    refine ⟨.swap _ _ _, fun name => ?_⟩
    by_cases init : "init" = name
    · simp [shownAs, Info.publicName, ← init]
    · simp [shownAs, Info.publicName, List.filter_cons, init]
  exact ⟨rfl, .cons ⟨rfl, .interface _ ⟨methods, same, same, .swap _ _ _⟩⟩ .nil⟩

end Sample

/-- Three methods and two protocols in another order. -/
theorem toBytes_reordered_view :
    (Sample.view [Sample.shownAs "draw" "draw", Sample.shownAs "init" "init",
        Sample.shownAs "draw:" "draw"] ["Q", "P"]).toBytes ⟨2, 1⟩ =
      (Sample.view [Sample.shownAs "init" "init", Sample.shownAs "draw" "draw",
        Sample.shownAs "draw:" "draw"] ["P", "Q"]).toBytes ⟨2, 1⟩ :=
  toBytes_reordered Sample.view_reordered ⟨2, 1⟩

end DeclArchive
