import DeclArchive.Proofs.Container.Refusal

/-!
# Forests that are put together

Adding to a forest keeps what is there (`Forest.Grew`), also where a step fails. A declaration that is
added is found at the position that is returned, and is listed; where there is no module to list it, it is
stored and the run ends in a fault (`Forest.pushDeclaration_ends`). So every position is found that is listed
in a forest to which modules and declarations were added one by one, and no save is refused for one that is
missing (`Forest.complete_planted`).
-/

namespace DeclArchive

namespace Forest

variable {f f' : Forest} {place : Nat} {id : DeclId} {d : Declaration}

/-! ## What stays -/

/-- The later forest has every declaration at its position, and every module at its place, with its name
and with all that it listed. -/
structure Grew (f f' : Forest) : Prop where
  declarations : f.declarations.items.toList <+: f'.declarations.items.toList
  modules : ∀ (place : Nat) (m : Module), f.modules[place]? = some m →
    ∃ m', f'.modules[place]? = some m' ∧ m'.name = m.name ∧
      m.declarations.toList <+: m'.declarations.toList

instance : IsPreorder Forest Grew where
  refl _ := ⟨List.prefix_rfl, fun _ m here => ⟨m, here, rfl, List.prefix_rfl⟩⟩
  trans _ _ _ h k := by
    refine ⟨h.declarations.trans k.declarations, fun place m here => ?_⟩
    obtain ⟨m', here', name, lists⟩ := h.modules place m here
    obtain ⟨m'', here'', name', lists'⟩ := k.modules place m' here'
    exact ⟨m'', here'', name'.trans name, lists.trans lists'⟩

/-- A position leads to the same declaration from then on. -/
theorem Grew.get?_eq (h : Grew f f') (here : f.get? id = some d) : f'.get? id = some d := by
  unfold get? Arena.get? at here ⊢
  rw [← Array.getElem?_toList] at here ⊢
  obtain ⟨lt, rfl⟩ := List.getElem?_eq_some_iff.1 here
  exact List.prefix_iff_getElem?.1 h.declarations _ lt

theorem grew_pushModule (name : String) : Keeps Grew (pushModule name) := by
  intro f
  refine ⟨List.prefix_rfl, fun place m here => ⟨m, ?_, rfl, List.prefix_rfl⟩⟩
  have lt := (Array.getElem?_eq_some_iff.1 here).1
  exact (Array.getElem?_push_lt lt).trans ((Array.getElem?_eq_getElem lt).symm.trans here)

theorem grew_store (d : Declaration) : Keeps Grew (store d) := by
  intro f
  refine ⟨?_, fun _ m here => ⟨m, here, rfl, List.prefix_rfl⟩⟩
  show f.declarations.items.toList <+: (f.declarations.items.push d).toList
  rw [Array.toList_push]
  exact List.prefix_append _ _

theorem grew_withListed (f : Forest) (place : Nat) (id : DeclId) :
    Grew f (f.withListed place id) := by
  refine ⟨List.prefix_rfl, fun i m here => ?_⟩
  have there : (f.withListed place id).modules[i]? = _ := Array.getElem?_modify
  rw [there, here]
  split_ifs
  · refine ⟨m.push id, rfl, rfl, ?_⟩
    rw [Module.push, Array.toList_push]
    exact List.prefix_append _ _
  · exact ⟨m, rfl, rfl, List.prefix_rfl⟩

theorem returns_attach (lt : place < f.modules.size) :
    Returns (attach place id) f () (f.withListed place id) := by
  unfold attach
  refine returns_bind.2 ⟨f, f, returns_get.2 ⟨rfl, rfl⟩, ?_⟩
  rw [if_neg (Nat.not_le.2 lt)]
  exact returns_modify.2 rfl

theorem stops_attach (past : f.modules.size ≤ place) :
    Stops (attach place id) f (.fault .unknownModule) f := by
  unfold attach
  refine stops_bind.2 (.inr ⟨f, f, returns_get.2 ⟨rfl, rfl⟩, ?_⟩)
  rw [if_pos past]
  exact stops_bind.2 (.inl (stops_throw.2 ⟨rfl, rfl⟩))

theorem grew_attach (place : Nat) (id : DeclId) : Keeps Grew (attach place id) := by
  intro f
  obtain lt | past := Nat.lt_or_ge place f.modules.size
  · rw [returns_attach lt]
    exact grew_withListed f place id
  · rw [stops_attach past]
    exact refl_of Grew f

theorem grew_pushDeclaration (place : Nat) (d : Declaration) : Keeps Grew (pushDeclaration place d) :=
  (grew_store d).bind fun id => (grew_attach place id).bind fun _ => keeps_pure _

/-! ## What is added -/

/-- The modules list as many positions as are counted. -/
theorem listedCount_eq (f : Forest) : f.listedCount = f.listed.length := by
  have count (ms : List Module) (n : Nat) : ms.foldl (fun n m => n + m.declarations.size) n =
      n + (ms.flatMap fun m => m.declarations.toList.map fun id => (m, f.get? id)).length := by
    induction ms generalizing n with
    | nil => rfl
    | cons m ms ih =>
      rw [List.foldl_cons, ih, List.flatMap_cons, List.length_append, List.length_map,
        Array.length_toList]
      exact Nat.add_assoc ..
  have start := count f.modules.toList 0
  rwa [Array.foldl_toList, Nat.zero_add] at start

theorem length_listed_withListed (lt : place < f.modules.size) :
    (f.withListed place id).listed.length = f.listed.length + 1 := by
  have more (ms : List Module) (i : Nat) (lt : i < ms.length) :
      ((ms.modify i (·.push id)).flatMap fun m => m.declarations.toList.map fun id =>
        (m, f.get? id)).length =
      (ms.flatMap fun m => m.declarations.toList.map fun id => (m, f.get? id)).length + 1 := by
    induction ms generalizing i with
    | nil => cases lt
    | cons m ms ih =>
      cases i with
      | zero =>
        simp only [List.modify_zero_cons, List.flatMap_cons, List.length_append, List.length_map,
          Module.push, Array.toList_push, List.length_singleton]
        omega
      | succ i =>
        simp only [List.modify_succ_cons, List.flatMap_cons, List.length_append]
        rw [ih i (Nat.lt_of_succ_lt_succ lt)]
        omega
  have modules : (f.withListed place id).modules.toList = f.modules.toList.modify place (·.push id) :=
    Array.toList_modify
  unfold listed
  rw [modules]
  exact more f.modules.toList place lt

/-- The forest after a declaration was stored. -/
def withStored (f : Forest) (d : Declaration) : Forest :=
  { f with declarations := (f.declarations.push d).2 }

/-- The position that the next declaration is given. -/
def nextId (f : Forest) : DeclId := UInt32.ofNat f.declarations.items.size

theorem get?_withStored (few : f.declarations.items.size < UInt32.size) :
    (f.withStored d).get? f.nextId = some d := by
  show (f.declarations.items.push d)[f.nextId.toNat]? = _
  rw [nextId, UInt32.toNat_ofNat_of_lt' few, Array.getElem?_push_size]

theorem returns_pushDeclaration (lt : place < f.modules.size) :
    Returns (pushDeclaration place d) f f.nextId ((f.withStored d).withListed place f.nextId) := by
  have stored : Returns (store d) f f.nextId (f.withStored d) := rfl
  have attached : Returns (attach place f.nextId) (f.withStored d) () _ := returns_attach lt
  exact returns_bind.2 ⟨_, _, stored, returns_bind.2 ⟨_, _, attached, returns_pure.2 ⟨rfl, rfl⟩⟩⟩

theorem stops_pushDeclaration (past : f.modules.size ≤ place) :
    Stops (pushDeclaration place d) f (.fault .unknownModule) (f.withStored d) := by
  have stored : Returns (store d) f f.nextId (f.withStored d) := rfl
  have stop : Stops (attach place f.nextId) (f.withStored d) _ _ := stops_attach past
  exact stops_bind.2 (.inr ⟨_, _, stored, stops_bind.2 (.inl stop)⟩)

/-- **A declaration that is added is found and listed**, and nothing else is. Where the module is not
there, it is only stored, and the run ends in a fault. -/
theorem pushDeclaration_ends (place : Nat) (d : Declaration)
    (few : f.declarations.items.size < UInt32.size) :
    Ends (fun e f' => f.modules.size ≤ place ∧ e = .fault .unknownModule ∧ f' = f.withStored d)
      (fun id f' => place < f.modules.size ∧ f'.get? id = some d ∧
        f' = (f.withStored d).withListed place id ∧ f'.listedCount = f.listedCount + 1)
      (pushDeclaration place d) f := by
  obtain lt | past := Nat.lt_or_ge place f.modules.size
  · refine ends_of_returns (returns_pushDeclaration lt) ⟨lt, get?_withStored few, rfl, ?_⟩
    have lt : place < (f.withStored d).modules.size := lt
    rw [listedCount_eq, length_listed_withListed lt, ← listedCount_eq]
    rfl
  · exact ends_of_stops (stops_pushDeclaration past) ⟨past, rfl, rfl⟩

/-! ## Nothing is missing -/

/-- Every position that is listed leads to a declaration. -/
def Complete (f : Forest) : Prop := ∀ m ∈ f.modules, ∀ id ∈ m.declarations, ∃ d, f.get? id = some d

theorem Complete.listed (complete : f.Complete) : ∀ l ∈ f.listed, ∃ d, l.2 = some d := by
  intro l hl
  obtain ⟨m, hm, hl⟩ := List.mem_flatMap.1 hl
  obtain ⟨id, hid, rfl⟩ := List.mem_map.1 hl
  exact complete m (Array.mem_toList_iff.1 hm) id (Array.mem_toList_iff.1 hid)

/-- No save of a complete forest is refused for a declaration that is missing. -/
theorem Complete.refusal?_ne (complete : f.Complete) (name : String) :
    f.refusal? ≠ some (.broken (.missingDeclaration name)) := by
  intro refused
  have refuses := refuses_of_refusal refused
  generalize missing : Error.broken (.missingDeclaration name) = e at refuses
  cases refuses with
  | names => cases missing
  | listed few visited earlier refuses =>
    cases refuses with
    | missing =>
      obtain ⟨d, found⟩ := complete.listed _ (visited ▸ List.mem_append_right _ List.mem_cons_self)
      cases found
    | offends offends =>
      subst missing
      cases offends

/-- The step keeps a forest complete, as long as positions tell declarations apart. -/
def Completes (f f' : Forest) : Prop :=
  Grew f f' ∧ (f'.declarations.items.size ≤ UInt32.size → f.Complete → f'.Complete)

theorem Grew.size_le (h : Grew f f') :
    f.declarations.items.size ≤ f'.declarations.items.size := h.declarations.length_le

instance : IsPreorder Forest Completes where
  refl f := ⟨refl_of Grew f, fun _ complete => complete⟩
  trans _ _ _ h k := ⟨trans_of Grew h.1 k.1, fun few complete =>
    k.2 few (h.2 (k.1.size_le.trans few) complete)⟩

theorem completes_pushModule (name : String) : Keeps Completes (pushModule name) := by
  intro f
  refine ⟨grew_pushModule name f, fun _ complete m hm => ?_⟩
  obtain hm | rfl := Array.mem_push.1 hm
  · exact complete m hm
  · exact fun _ mem => nomatch mem

/-- What was complete stays so when more is stored. -/
theorem Complete.grow (complete : f.Complete) (grew : Grew f f') (same : f'.modules = f.modules) :
    f'.Complete := by
  intro m hm id hid
  rw [same] at hm
  obtain ⟨d, here⟩ := complete m hm id hid
  exact ⟨d, grew.get?_eq here⟩

theorem Complete.withListed (complete : f.Complete) (here : f.get? id = some d) (place : Nat) :
    (f.withListed place id).Complete := by
  intro m hm id' hid
  obtain ⟨i, found⟩ := Array.mem_iff_getElem?.1 hm
  have modified : (f.modules.modify place (·.push id))[i]? = some m := found
  rw [Array.getElem?_modify] at modified
  split_ifs at modified
  · obtain ⟨m, before, rfl⟩ := Option.map_eq_some_iff.1 modified
    obtain hid | rfl := Array.mem_push.1 hid
    · exact complete m (Array.mem_of_getElem? before) id' hid
    · exact ⟨d, here⟩
  · exact complete m (Array.mem_of_getElem? modified) id' hid

theorem completes_pushDeclaration (place : Nat) (d : Declaration) :
    Keeps Completes (pushDeclaration place d) := by
  intro f
  refine ⟨grew_pushDeclaration place d f, fun few complete => ?_⟩
  have stored : (f.withStored d).Complete := complete.grow (grew_store d f) rfl
  obtain lt | past := Nat.lt_or_ge place f.modules.size
  · rw [returns_pushDeclaration lt] at few ⊢
    have size : (f.declarations.items.push d).size ≤ UInt32.size := few
    rw [Array.size_push] at size
    exact stored.withListed (get?_withStored size) place
  · rw [stops_pushDeclaration past]
    exact stored

/-- Something to add to a forest. -/
inductive Addition where
  | module (name : String)
  | declaration (place : Nat) (d : Declaration)

/-- The forest after something was added, or after that failed. -/
def plant (f : Forest) : Addition → Forest
  | .module name => ((pushModule name).run.run f).2
  | .declaration place d => ((pushDeclaration place d).run.run f).2

theorem completes_plant (f : Forest) (step : Addition) : Completes f (f.plant step) := by
  cases step with
  | module name => exact completes_pushModule name f
  | declaration place d => exact completes_pushDeclaration place d f

theorem completes_foldl (f : Forest) (steps : List Addition) : Completes f (steps.foldl plant f) := by
  induction steps generalizing f with
  | nil => exact refl_of Completes f
  | cons step steps ih => exact trans_of Completes (completes_plant f step) (ih _)

/-- **Nothing is missing in a forest that was put together step by step**, also where steps failed: every
position that is listed leads to a declaration, and no save is refused for one that is not there. There are
no more declarations than positions tell apart. -/
theorem complete_planted (steps : List Addition)
    (few : (steps.foldl plant empty).declarations.items.size ≤ UInt32.size) :
    (steps.foldl plant empty).Complete ∧
      ∀ name, (steps.foldl plant empty).refusal? ≠ some (.broken (.missingDeclaration name)) := by
  have complete := (completes_foldl empty steps).2 few fun m hm => nomatch hm
  exact ⟨complete, complete.refusal?_ne⟩

end Forest
end DeclArchive
