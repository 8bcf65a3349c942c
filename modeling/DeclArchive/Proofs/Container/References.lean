import DeclArchive.Proofs.Container.RoundTrip
import DeclArchive.Proofs.Subtypes

/-!
# References in a saved container

A stored declaration has the types of the declaration that was written (`StoredBody.Mirrors.mem_types`),
and a name is registered if and only if a listed declaration has it as its public name. So checking the
references of a saved container succeeds exactly where every name in a type of a listed declaration is
one of a listed declaration, and otherwise reports such a name that is not (`references_checked`).
-/

namespace DeclArchive

/-! ## Checks in turn -/

/-- The check finds out whether all needed names are known: it succeeds if they are, and otherwise
reports one that is not. -/
def Settles (known needed : String → Prop) (check : Except Error Unit) : Prop :=
  (check = .ok () ∧ ∀ name, needed name → known name) ∨
    ∃ name, needed name ∧ ¬ known name ∧ check = .error (.unresolved name)

section

variable {known needed : String → Prop} {check : Except Error Unit}

theorem Settles.congr {needed' : String → Prop} (h : Settles known needed check)
    (same : ∀ name, needed name ↔ needed' name) : Settles known needed' check := by
  have equal : needed = needed' := funext fun name => propext (same name)
  rwa [← equal]

/-- Checks that are made in turn find out about all their names. -/
theorem Settles.forM {α : Type} {needed : α → String → Prop} {f : α → Except Error Unit} {xs : List α}
    (each : ∀ x ∈ xs, Settles known (needed x) (f x)) :
    Settles known (fun name => ∃ x ∈ xs, needed x name) (xs.forM f) := by
  induction xs with
  | nil => exact .inl ⟨rfl, fun name ⟨_, mem, _⟩ => nomatch mem⟩
  | cons x xs ih =>
    obtain ⟨first, others⟩ := List.forall_mem_cons.1 each
    have step : (x :: xs).forM f = f x >>= fun _ => xs.forM f := rfl
    rw [step]
    obtain ⟨done, all⟩ | ⟨name, mem, unknown, stop⟩ := first
    · rw [done, Except.ok_bind]
      obtain ⟨done', all'⟩ | ⟨name, ⟨y, hy, mem⟩, unknown, stop⟩ := ih others
      · refine .inl ⟨done', fun name ⟨y, hy, mem⟩ => ?_⟩
        obtain rfl | hy := List.mem_cons.1 hy
        · exact all name mem
        · exact all' name ⟨y, hy, mem⟩
      · exact .inr ⟨name, ⟨y, List.mem_cons_of_mem x hy, mem⟩, unknown, stop⟩
    · rw [stop]
      exact .inr ⟨name, ⟨x, List.mem_cons_self, mem⟩, unknown, rfl⟩

theorem Settles.ok_iff (h : Settles known needed check) :
    check = .ok () ↔ ∀ name, needed name → known name := by
  obtain ⟨done, all⟩ | ⟨name, mem, unknown, stop⟩ := h
  · exact ⟨fun _ => all, fun _ => done⟩
  · exact ⟨fun done => (nomatch stop.symm.trans done), fun all => absurd (all name mem) unknown⟩

theorem Settles.of_error {e : Error} (h : Settles known needed check) (stop : check = .error e) :
    ∃ name, needed name ∧ ¬ known name ∧ e = .unresolved name := by
  obtain ⟨done, -⟩ | ⟨name, mem, unknown, stop'⟩ := h
  · exact nomatch done.symm.trans stop
  · exact ⟨name, mem, unknown, Except.error.inj (stop.symm.trans stop')⟩

end

/-! ## Types of stored declarations -/

section

variable {α β : Type} {info : α → Info} {types : α → List TypeExpr} {stored : β → List TypeExpr}
  {R : α → β → Prop} {xs sorted : List α} {ys : List β} {t : TypeExpr}

/-- Members that were sorted and stored one by one have the same types. -/
theorem StablySorted.mem_types (sort : StablySorted info xs sorted)
    (each : List.Forall₂ R sorted ys) (same : ∀ x y, R x y → ∀ t, t ∈ stored y ↔ t ∈ types x) :
    t ∈ ys.flatMap stored ↔ t ∈ xs.flatMap types := by
  rw [List.mem_flatMap, List.mem_flatMap]
  constructor
  · rintro ⟨y, hy, ht⟩
    obtain ⟨x, hx, related⟩ := exists_left_of_forall₂ each hy
    exact ⟨x, sort.mem_iff.1 hx, (same x y related t).1 ht⟩
  · rintro ⟨x, hx, ht⟩
    obtain ⟨y, hy, related⟩ := exists_right_of_forall₂ each (sort.mem_iff.2 hx)
    exact ⟨y, hy, (same x y related t).2 ht⟩

end

section

variable {module : UInt16} {t : TypeExpr}

theorem StoredMethod.Mirrors.accessor {m? : Option Method} {s? : Option StoredMethod}
    (h : Option.Rel (StoredMethod.Mirrors module) m? s?) :
    storedAccessorTypes s? = accessorTypes m? := by
  cases h with
  | none => rfl
  | some h => exact h.signature

theorem StoredMembers.Mirrors.mem_types {m : Members} {s : StoredMembers}
    (h : s.Mirrors module m) : t ∈ s.types ↔ t ∈ m.types := by
  obtain ⟨instances, sort₁, each₁, -⟩ := h.instanceMethods
  obtain ⟨statics, sort₂, each₂⟩ := h.staticMethods
  obtain ⟨properties, sort₃, each₃⟩ := h.properties
  have signature (m : Method) (s : StoredMethod) (h : s.Mirrors module m) (t : TypeExpr) :
      t ∈ s.signature ↔ t ∈ m.signature := by rw [h.signature]
  have accessors (p : Property) (s : StoredProperty) (h : s.Mirrors module p) (t : TypeExpr) :
      t ∈ storedAccessorTypes s.getter? ++ storedAccessorTypes s.setter? ↔
        t ∈ accessorTypes p.getter? ++ accessorTypes p.setter? := by
    rw [StoredMethod.Mirrors.accessor h.getter, StoredMethod.Mirrors.accessor h.setter]
  unfold StoredMembers.types Members.types
  rw [List.mem_append, List.mem_append, List.mem_append, List.mem_append,
    sort₁.mem_types each₁ signature, sort₂.mem_types each₂ signature, sort₃.mem_types each₃ accessors]

/-- A stored declaration has the types of the declaration. -/
theorem StoredDeclaration.Mirrors.mem_types {record : Offset} {topLevel : String} {d : Declaration}
    {s : StoredDeclaration} (h : s.Mirrors record module topLevel d) :
    t ∈ s.types ↔ t ∈ d.body.types := by
  have body := h.body
  unfold StoredDeclaration.types Body.types
  generalize d.body = declared, s.body = read at body
  cases body with
  | interface _ members => exact members.mem_types
  | protocol members => exact members.mem_types
  | _ => exact Iff.rfl

end

/-! ## Names -/

namespace Forest

/-- A listed declaration has this public name. -/
def Declares (forest : Forest) (name : String) : Prop :=
  ∃ listed ∈ forest.listed, ∃ d ∈ listed.2, d.info.publicName = name

/-- The name stands for a struct, union or interface somewhere in a type of a listed declaration. -/
def Mentions (forest : Forest) (name : String) : Prop :=
  ∃ listed ∈ forest.listed, ∃ d ∈ listed.2, ∃ t ∈ d.body.types, ∃ kind,
    .named kind name ∈ t.subtypes

variable {forest : Forest} {widths : Widths} {name : String} {entries : List Written}

/-- The names that are registered are the public names of the listed declarations. -/
theorem declares_iff {table : Module × Option Declaration → Written → Prop}
    (listed : List.Forall₂ (fun l e => table l e ∧ l.2 = some e.declaration) forest.listed entries)
    (records : forest.records widths = entries.map Written.record) :
    forest.Declares name ↔ ∃ record, forest.firstRecord? widths name = some record := by
  rw [← Option.isSome_iff_exists, firstRecord?, records, find?_written listed name,
    Option.isSome_map, List.find?_isSome]
  constructor
  · rintro ⟨l, hl, d, hd, shown⟩
    obtain ⟨e, he, -, written⟩ := exists_right_of_forall₂ listed hl
    obtain rfl : d = e.declaration := Option.some.inj (hd.symm.trans written)
    exact ⟨e, he, decide_eq_true shown⟩
  · rintro ⟨e, he, shown⟩
    obtain ⟨l, hl, -, written⟩ := exists_left_of_forall₂ listed he
    exact ⟨l, hl, e.declaration, written, of_decide_eq_true shown⟩

end Forest

/-- The names that the check looks up are those that it meets in the types of the records. -/
theorem Container.settles_references {c : Container} {known : String → Prop} {os : List Offset}
    (resolves : ∀ name, Settles known (· = name) (do let _ ← c.resolve name))
    (records : c.records = .ok os) (reads : ∀ o ∈ os, ∃ s, c.declaration o = .ok s) :
    Settles known (fun name => ∃ o ∈ os, ∃ s, c.declaration o = .ok s ∧
      ∃ t ∈ s.types, name ∈ t.references) c.checkReferences := by
  rw [Container.checkReferences, records, Except.ok_bind]
  refine .forM fun o ho => ?_
  obtain ⟨s, read⟩ := reads o ho
  have types : Settles known (fun name => ∃ t ∈ s.types, ∃ name' ∈ t.references, name = name')
      (s.types.forM fun type => type.references.forM fun name => do let _ ← c.resolve name) :=
    .forM fun t _ => .forM fun name _ => resolves name
  rw [read, Except.ok_bind]
  refine types.congr fun name => ?_
  simp only [Except.ok.injEq, exists_eq_left', exists_eq_right']

section

variable {forest : Forest} {parts : Parts} {builder : Builder} {entries : List Written}
  (built : forest.Built parts builder entries) (inside : builder.writer.In parts.image)
  (plain : forest.Plain)

include built inside plain

/-- The record of a listed declaration is read with the types of the declaration. -/
theorem Forest.Built.reads_types : ∀ e ∈ entries, ∃ s,
    (parts.opened forest.topLevelNames).declaration e.record = .ok s ∧
      ∀ t, t ∈ s.types ↔ t ∈ e.declaration.body.types := by
  intro e he
  obtain ⟨listed, hl, name, found⟩ := exists_left_of_forall₂ built.listed he
  have module : (parts.opened forest.topLevelNames).modules[e.place.toNat]? =
      some listed.1.topLevel := List.getElem?_toArray.trans name
  obtain ⟨s, read, mirrors⟩ := Container.declaration_reads built.tracks he inside module
    (plain.declarations listed hl e.declaration found)
  exact ⟨s, read, fun t => mirrors.mem_types⟩

/-- The types of the records mention what the types of the listed declarations do. -/
theorem Forest.Built.mentions_iff {os : List Offset} (perm : os.Perm (entries.map Written.record))
    {name : String} : (∃ o ∈ os, ∃ s, (parts.opened forest.topLevelNames).declaration o = .ok s ∧
      ∃ t ∈ s.types, name ∈ t.references) ↔ forest.Mentions name := by
  constructor
  · rintro ⟨o, ho, s, read, t, ht, mem⟩
    obtain ⟨e, he, rfl⟩ := List.mem_map.1 (perm.mem_iff.1 ho)
    obtain ⟨s', read', types⟩ := built.reads_types inside plain e he
    obtain rfl := Except.ok.inj (read.symm.trans read')
    obtain ⟨listed, hl, -, found⟩ := exists_left_of_forall₂ built.listed he
    exact ⟨listed, hl, e.declaration, found, t, (types t).1 ht, TypeExpr.mem_references.1 mem⟩
  · rintro ⟨listed, hl, d, hd, t, ht, mem⟩
    obtain ⟨e, he, -, found⟩ := exists_right_of_forall₂ built.listed hl
    obtain rfl := Option.some.inj (found.symm.trans hd)
    obtain ⟨s, read, types⟩ := built.reads_types inside plain e he
    exact ⟨e.record, perm.mem_iff.2 (List.mem_map_of_mem he), s, read, t, (types t).2 ht,
      TypeExpr.mem_references.2 mem⟩

end

/-- **Checking references is exact.** In a container that was saved from a forest, the check succeeds if
and only if every struct, union and interface that a type of a listed declaration names, at any depth,
is the public name of a listed declaration. Otherwise it reports a name for which this fails. The bytes
are in one block of memory, as all bytes are. -/
theorem references_checked {forest : Forest} {widths : Widths} {b : Array UInt8}
    (plain : forest.Plain) (saved : forest.toBytes widths = .ok b)
    (fits : b.size ≤ Heap.largestBlock) :
    ∃ c, Container.parse b = .ok c ∧
      (c.checkReferences = .ok () ↔ ∀ name, forest.Mentions name → forest.Declares name) ∧
      ∀ e, c.checkReferences = .error e →
        ∃ name, forest.Mentions name ∧ ¬ forest.Declares name ∧ e = .unresolved name := by
  obtain ⟨parts, builder, entries, built, format, records, inside, parse⟩ :=
    Forest.open_returns saved fits
  rw [plain.topLevelNames] at parse
  have slots := built.slots.imp fun _ _ h => h _ inside
  obtain ⟨os, read, perm⟩ := Container.records_eq (c := parts.opened forest.topLevelNames)
    built.tracks.index slots
  rw [List.map_map] at perm
  have reads (o : Offset) (ho : o ∈ os) :
      ∃ s, (parts.opened forest.topLevelNames).declaration o = .ok s := by
    obtain ⟨e, he, rfl⟩ := List.mem_map.1 (perm.mem_iff.1 ho)
    obtain ⟨s, read, -⟩ := built.reads_types inside plain e he
    exact ⟨s, read⟩
  have resolves (name : String) : Settles forest.Declares (· = name)
      (do let _ ← (parts.opened forest.topLevelNames).resolve name) := by
    have publicNames : ∀ listed ∈ forest.listed, ∀ d ∈ listed.2, Utf8.NulFree d.info.publicName :=
      fun listed hl d hd => (plain.declarations listed hl d hd).texts _ List.mem_cons_self
    have known : forest.Declares name ↔ _ := Forest.declares_iff built.listed records
    rw [Container.resolve, built.lookup_eq inside publicNames records, Except.ok_bind]
    cases found : forest.firstRecord? widths name with
    | some record => exact .inl ⟨rfl, fun _ same => same ▸ known.2 ⟨record, found⟩⟩
    | none =>
      refine .inr ⟨name, rfl, fun declared => ?_, rfl⟩
      obtain ⟨record, found'⟩ := known.1 declared
      cases found.symm.trans found'
  have settled : Settles forest.Declares forest.Mentions
      (parts.opened forest.topLevelNames).checkReferences :=
    (Container.settles_references resolves read reads).congr fun name =>
      built.mentions_iff inside plain perm
  exact ⟨_, parse, settled.ok_iff, fun e stop => settled.of_error stop⟩

namespace Views

open Write

variable {target name : String}

/-- The class is referred to by its members, and the struct by the variable. -/
theorem mentions_iff : (forest target).Mentions name ↔ name = "View" ∨ name = target := by
  simp [Forest.Mentions, listed_eq, view, shared, initializer, parent, Body.types, Members.types,
    accessorTypes, TypeExpr.subtypes]

theorem declares_iff : (forest target).Declares name ↔ name = "View" := by
  simp [Forest.Declares, listed_eq, view, shared, Info.publicName, eq_comm]

/-- What is written behind the class for a variable which points to a struct `Rect`. -/
def danglingBytes : List UInt8 :=
  [82, 101, 99, 116, 0, 19, 17, 121, 4, 5, 0, 0, 0, 126, 2, 0, 0, 0, 0, 0, 0, 0, 109, 129]

/-- The writer after that variable. -/
def withDangling : Writer :=
  .knowing format (Heap.empty.append (viewBytes ++ danglingBytes.take 14)) (("Rect", 121) :: viewTexts)
    declared.log

set_option maxRecDepth 1000 in
theorem returns_dangling : Returns ((shared "Rect").write 0) declared 129 withDangling :=
  .bind (returns_text_known rfl) (.bind (.bind (.bind (returns_text_unknown rfl) rfl) rfl) rfl)

/-- The writer after the index. -/
def danglingLast : Writer :=
  .knowing format (Heap.empty.append (viewBytes ++ danglingBytes)) (("Rect", 121) :: viewTexts)
    ((registered withDangling 129).log.push (index.add "View" 129).summary)

theorem returns_danglingIndex :
    Returns (index.add "View" 129).write (registered withDangling 129) [135, 0, 0] danglingLast := by
  unfold Returns
  rfl

theorem toBytes_dangling :
    ∃ b, (forest "Rect").toBytes ⟨1, 8⟩ = .ok b ∧ b.size ≤ Heap.largestBlock :=
  ⟨_, Forest.toBytes_eq_ok.2 ⟨_, _, build_eq returns_dangling returns_danglingIndex rfl,
    ⟨⟨by decide, by decide⟩, ⟨by decide, by decide⟩, by decide⟩, rfl⟩, by decide +kernel⟩

end Views

/-- The class refers to itself, and the variable to a struct: if that is named as the class is, the check
succeeds, and if it is named `Rect`, which nothing is, the check reports it. -/
theorem references_checked_views :
    (∃ c, Container.parse Views.bytes = .ok c ∧ c.checkReferences = .ok ()) ∧
      ∃ b c, (Views.forest "Rect").toBytes ⟨1, 8⟩ = .ok b ∧ Container.parse b = .ok c ∧
        c.checkReferences = .error (.unresolved "Rect") := by
  constructor
  · obtain ⟨c, parse, exact, -⟩ :=
      references_checked (Views.plain (by decide)) Views.toBytes_eq Views.fits
    exact ⟨c, parse, exact.2 fun name mentioned =>
      Views.declares_iff.2 ((Views.mentions_iff.1 mentioned).elim id id)⟩
  · obtain ⟨b, saved, fits⟩ := Views.toBytes_dangling
    obtain ⟨c, parse, exact, reported⟩ := references_checked (Views.plain (by decide)) saved fits
    refine ⟨b, c, saved, parse, ?_⟩
    cases check : c.checkReferences with
    | ok =>
      have declared := exact.1 check "Rect" (Views.mentions_iff.2 (.inr rfl))
      exact absurd (Views.declares_iff.1 declared) (by decide)
    | error e =>
      obtain ⟨name, mentioned, undeclared, rfl⟩ := reported e check
      obtain rfl | rfl := Views.mentions_iff.1 mentioned
      · exact absurd (Views.declares_iff.2 rfl) undeclared
      · rfl

end DeclArchive
