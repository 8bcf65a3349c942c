import DeclArchive.Proofs.TypeExpr
import DeclArchive.Record.Write
import DeclArchive.Stored

/-!
# What a stored declaration says

`StoredDeclaration.Mirrors` relates what a reader finds in a record to the declaration that was
written, part by part: both names, the flags and no others, the version as one byte keeps it, the
module, and the body. Members come in the order of their public names, and those with one public name
in the order in which they were declared (`StablySorted`).

Flag bytes say what was put into them: `ofByte_ofMethod`, `ofByte_ofProperty`,
`ofByte_flagByte`.
-/

namespace DeclArchive

/-! ## Order -/

/-- `ys` holds the values of `xs` in the order of their public names, and those with one public name in
the order of `xs`. -/
structure StablySorted {α : Type} (info : α → Info) (xs ys : List α) : Prop where
  sorted : ys.Pairwise fun x y => (info x).publicName ≤ (info y).publicName
  stable : ∀ name, (ys.filter fun x => (info x).publicName = name) =
    xs.filter fun x => (info x).publicName = name

/-- A value is found again in a list that holds the same values of each name. -/
theorem mem_of_filter_eq {α : Type} {info : α → Info} {xs ys : List α}
    (same : ∀ name, (xs.filter fun x => (info x).publicName = name) =
      ys.filter fun x => (info x).publicName = name) {x : α} (hx : x ∈ xs) : x ∈ ys := by
  have here : x ∈ xs.filter fun y => (info y).publicName = (info x).publicName := by simp [hx]
  rw [same] at here
  exact List.mem_of_mem_filter here

theorem StablySorted.mem_iff {α : Type} {info : α → Info} {xs ys : List α}
    (h : StablySorted info xs ys) {x : α} : x ∈ ys ↔ x ∈ xs :=
  ⟨mem_of_filter_eq h.stable, mem_of_filter_eq fun name => (h.stable name).symm⟩

/-- A stable sort keeps the order of the values that it finds equal. -/
theorem filter_mergeSort {α : Type} {le : α → α → Bool}
    (trans : ∀ a b c, le a b → le b c → le a c) (total : ∀ a b, le a b || le b a) {p : α → Bool}
    (equal : ∀ a b, p a → p b → le a b) (xs : List α) :
    (xs.mergeSort le).filter p = xs.filter p := by
  have ordered : (xs.filter p).Pairwise fun a b => le a b := by
    rw [List.pairwise_filter]
    exact List.pairwise_of_forall_mem_list fun a _ b _ ha hb => equal a b ha hb
  have sub : (xs.filter p).Sublist ((xs.mergeSort le).filter p) := by
    have := (List.sublist_mergeSort trans total ordered List.filter_sublist).filter p
    rwa [List.filter_filter, List.filter_congr fun _ _ => Bool.and_self _] at this
  exact (sub.eq_of_length ((List.mergeSort_perm xs le).filter p).length_eq.symm).symm

theorem stablySorted_sortByPublicName {α : Type} (info : α → Info) (xs : List α) :
    StablySorted info xs (sortByPublicName info xs) := by
  have trans : ∀ a b c : α, decide ((info a).publicName ≤ (info b).publicName) →
      decide ((info b).publicName ≤ (info c).publicName) →
        decide ((info a).publicName ≤ (info c).publicName) := by
    simp only [decide_eq_true_eq]
    exact fun a b c => String.le_trans
  have total : ∀ a b : α, decide ((info a).publicName ≤ (info b).publicName) ||
      decide ((info b).publicName ≤ (info a).publicName) := by
    simp only [Bool.or_eq_true, decide_eq_true_eq]
    exact fun a b => String.le_total _ _
  constructor
  · exact (List.pairwise_mergeSort trans total xs).imp of_decide_eq_true
  · intro name
    refine filter_mergeSort trans total (fun a b ha hb => ?_) xs
    rw [decide_eq_true_eq] at ha hb ⊢
    have same : (info a).publicName = (info b).publicName := ha.trans hb.symm
    exact same ▸ String.le_refl (info a).publicName

theorem mem_sortByPublicName {α : Type} {info : α → Info} {xs : List α} {x : α} :
    x ∈ sortByPublicName info xs ↔ x ∈ xs := List.mem_mergeSort

theorem sortNames_perm (names : List String) : (sortNames names).Perm names :=
  List.mergeSort_perm names _

theorem pairwise_sortNames (names : List String) : (sortNames names).Pairwise (· ≤ ·) := by
  have trans : ∀ a b c : String, decide (a ≤ b) → decide (b ≤ c) → decide (a ≤ c) := by
    simp only [decide_eq_true_eq]
    exact fun a b c => String.le_trans
  have total : ∀ a b : String, decide (a ≤ b) || decide (b ≤ a) := by
    simp only [Bool.or_eq_true, decide_eq_true_eq]
    exact String.le_total
  exact (List.pairwise_mergeSort trans total names).imp of_decide_eq_true

/-! ## Flags -/

namespace FlagByte

theorem ofByte_ofMethod (i : Info) (flags : MethodFlags) :
    StoredFlags.ofByte .method (ofMethod i flags) =
      { hasName := i.hasDistinctName, appExtension := i.appExtension, method? := some flags } := by
  rcases flags with ⟨optional, initializer, variadic, nullTerminated, ownsResult, errorOut⟩
  unfold ofMethod common
  generalize i.hasDistinctName = distinct
  generalize i.appExtension = extension
  revert optional initializer variadic nullTerminated ownsResult errorOut distinct extension
  decide

theorem ofByte_ofProperty (i : Info) (optional hasGetter hasSetter : Bool) :
    StoredFlags.ofByte .property (ofProperty i optional hasGetter hasSetter) =
      { hasName := i.hasDistinctName, appExtension := i.appExtension, optional, hasGetter,
        hasSetter } := by
  unfold ofProperty common
  generalize i.hasDistinctName = distinct
  generalize i.appExtension = extension
  revert optional hasGetter hasSetter distinct extension
  decide

theorem ofByte_ofFunction (i : Info) (flags : FunctionFlags) :
    StoredFlags.ofByte .declaration (ofFunction i flags) =
      { hasName := i.hasDistinctName, appExtension := i.appExtension, function? := some flags } ∧
    RecordTag.ofByte (ofFunction i flags) = .function := by
  rcases flags with ⟨variadic, ownsResult, unmanagedResult⟩
  unfold ofFunction ofDeclaration common
  generalize i.hasDistinctName = distinct
  generalize i.appExtension = extension
  revert variadic ownsResult unmanagedResult distinct extension
  decide

theorem ofByte_ofDeclaration (i : Info) {tag : RecordTag} (ne : tag ≠ .function) :
    StoredFlags.ofByte .declaration (ofDeclaration i tag) =
      { hasName := i.hasDistinctName, appExtension := i.appExtension } ∧
    RecordTag.ofByte (ofDeclaration i tag) = tag := by
  unfold ofDeclaration common
  generalize i.hasDistinctName = distinct
  generalize i.appExtension = extension
  cases tag with
  | function => exact (ne rfl).elim
  | _ => revert distinct extension; decide

end FlagByte

theorem StoredFlags.ofByte_hasName (context : RecordContext) (b : UInt8) :
    (StoredFlags.ofByte context b).hasName = FlagByte.has b FlagByte.distinctName := by
  cases context with
  | declaration =>
    unfold StoredFlags.ofByte
    dsimp only
    split_ifs <;> rfl
  | method => rfl
  | property => rfl

/-- The tag of the record of a declaration; a category has none. -/
def Body.tag : Body → RecordTag
  | .function _ _ => .function
  | .record kind _ => .ofRecord kind
  | .code _ => .jsCode
  | .global _ => .var
  | .interface _ _ => .interface
  | .protocol _ => .protocol
  | .category _ _ => .undefined

/-- The function flags of a function. -/
def Body.functionFlags? : Body → Option FunctionFlags
  | .function _ flags => some flags
  | _ => none

/-- The flag byte of the record of a declaration. -/
def Declaration.flagByte (d : Declaration) : UInt8 :=
  match d.body with
  | .function _ flags => FlagByte.ofFunction d.info flags
  | body => FlagByte.ofDeclaration d.info body.tag

/-- The flag byte of a declaration says its flags and its kind. -/
theorem Declaration.ofByte_flagByte (d : Declaration) :
    StoredFlags.ofByte .declaration d.flagByte =
      { hasName := d.info.hasDistinctName, appExtension := d.info.appExtension,
        function? := d.body.functionFlags? } ∧
    RecordTag.ofByte d.flagByte = d.body.tag := by
  rcases d with ⟨info, body⟩
  cases body with
  | function _ flags => exact FlagByte.ofByte_ofFunction info flags
  | record kind _ => exact FlagByte.ofByte_ofDeclaration info (by cases kind <;> nofun)
  | _ => exact FlagByte.ofByte_ofDeclaration info (by nofun)

theorem Declaration.has_distinctName (d : Declaration) :
    FlagByte.has d.flagByte FlagByte.distinctName = d.info.hasDistinctName := by
  rw [← StoredFlags.ofByte_hasName .declaration, d.ofByte_flagByte.1]

/-! ## Texts -/

/-- Both names. -/
def Info.texts (i : Info) : List String := [i.publicName, i.name]

/-- Every text in a method. -/
def Method.texts (m : Method) : List String :=
  m.info.texts ++ m.encoding :: m.signature.flatMap TypeExpr.texts

/-- Every text in a property, accessors included. -/
def Property.texts (p : Property) : List String :=
  p.info.texts ++ (p.getter?.toList ++ p.setter?.toList).flatMap Method.texts

/-- Every text in members. -/
def Members.texts (m : Members) : List String :=
  (m.instanceMethods ++ m.staticMethods).flatMap Method.texts ++
    m.properties.flatMap Property.texts ++ m.protocols

/-- Every text in the body of a declaration. -/
def Body.texts : Body → List String
  | .function signature _ => signature.flatMap TypeExpr.texts
  | .record _ fields => fields.flatMap fun f => f.name :: f.type.texts
  | .code text => [text]
  | .global type => type.texts
  | .interface base? members => base?.toList ++ members.texts
  | .protocol members => members.texts
  | .category extended members => extended :: members.texts

/-- Every text in a declaration. -/
def Declaration.texts (d : Declaration) : List String := d.info.texts ++ d.body.texts

/-- Texts without `U+0000` and types that are not too high: what can be read back. -/
structure Plain (texts : List String) (types : List TypeExpr) : Prop where
  texts : ∀ s ∈ texts, Utf8.NulFree s
  types : ∀ t ∈ types, t.height ≤ deepestType

theorem Plain.mono {texts texts' : List String} {types types' : List TypeExpr}
    (h : Plain texts types) (sub : texts' ⊆ texts) (sub' : types' ⊆ types) :
    Plain texts' types' :=
  ⟨fun s hs => h.texts s (sub hs), fun t ht => h.types t (sub' ht)⟩

/-- Every text and type in a declaration can be read back. -/
def Declaration.Plain (d : Declaration) : Prop := DeclArchive.Plain d.texts d.body.types

/-! ## What records say -/

/-- The base of a record written for these names, flags and module. -/
structure StoredBase.Mirrors (s : StoredBase) (module : UInt16) (i : Info) (flags : UInt8) :
    Prop where
  publicName : s.publicName = i.publicName
  name : s.name = i.name
  flagByte : s.flagByte = flags
  moduleIndex : s.moduleIndex = module
  introduced : s.introduced = VersionByte.decode (VersionByte.encode i.introduced)

/-- The stored form of a method. -/
structure StoredMethod.Mirrors (module : UInt16) (m : Method) (s : StoredMethod) : Prop where
  base : s.base.Mirrors module m.info (FlagByte.ofMethod m.info m.flags)
  flags : s.flags =
    { hasName := m.info.hasDistinctName
      appExtension := m.info.appExtension
      method? := some m.flags }
  signature : s.signature = m.signature
  encoding : s.encoding? = if m.encoding = "" then none else some m.encoding

/-- The stored form of a property. -/
structure StoredProperty.Mirrors (module : UInt16) (p : Property) (s : StoredProperty) : Prop where
  base : s.base.Mirrors module p.info
    (FlagByte.ofProperty p.info p.optional p.getter?.isSome p.setter?.isSome)
  flags : s.flags =
    { hasName := p.info.hasDistinctName
      appExtension := p.info.appExtension
      optional := p.optional
      hasGetter := p.getter?.isSome
      hasSetter := p.setter?.isSome }
  getter : Option.Rel (StoredMethod.Mirrors module) p.getter? s.getter?
  setter : Option.Rel (StoredMethod.Mirrors module) p.setter? s.setter?

/-- The stored form of members: each list in the order of public names. -/
structure StoredMembers.Mirrors (module : UInt16) (m : Members) (s : StoredMembers) : Prop where
  instanceMethods : ∃ sorted, StablySorted Method.info m.instanceMethods sorted ∧
    List.Forall₂ (StoredMethod.Mirrors module) sorted s.instanceMethods ∧
    s.firstInitializer.toInt = (sorted.findIdx? Method.isInitializer).elim (-1) Int.ofNat
  staticMethods : ∃ sorted, StablySorted Method.info m.staticMethods sorted ∧
    List.Forall₂ (StoredMethod.Mirrors module) sorted s.staticMethods
  properties : ∃ sorted, StablySorted Property.info m.properties sorted ∧
    List.Forall₂ (StoredProperty.Mirrors module) sorted s.properties
  protocols : s.protocols.Perm m.protocols ∧ s.protocols.Pairwise (· ≤ ·)

/-- The stored form of a body. -/
inductive StoredBody.Mirrors (module : UInt16) : Body → StoredBody → Prop
  | function (signature : List TypeExpr) (flags : FunctionFlags) :
    Mirrors module (.function signature flags) (.function signature)
  | record (kind : RecordKind) (fields : List Field) :
    Mirrors module (.record kind fields) (.record kind fields)
  | code (text : String) : Mirrors module (.code text) (.code text)
  | global (type : TypeExpr) : Mirrors module (.global type) (.global type)
  | interface (base? : Option String) {m : Members} {s : StoredMembers} (members : s.Mirrors module m) :
    Mirrors module (.interface base? m) (.interface (base?.filter (· ≠ "")) s)
  | protocol {m : Members} {s : StoredMembers} (members : s.Mirrors module m) :
    Mirrors module (.protocol m) (.protocol s)

/-- The stored form of a declaration whose record is at `record`, and whose module has the given place
and top-level name. -/
structure StoredDeclaration.Mirrors (record : Offset) (place : UInt16) (topLevel : String)
    (d : Declaration) (s : StoredDeclaration) : Prop where
  offset : s.offset = record
  module : s.module = topLevel
  base : s.base.Mirrors place d.info d.flagByte
  flags : s.flags =
    { hasName := d.info.hasDistinctName
      appExtension := d.info.appExtension
      function? := d.body.functionFlags? }
  body : StoredBody.Mirrors place d.body s.body

end DeclArchive
