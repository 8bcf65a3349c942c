import DeclArchive.Proofs.Container.RoundTrip

/-!
# Names with `U+0000`

A name is hashed and registered as a whole, but stored up to its first `U+0000`. So a record whose name
has that character is registered and never found: what it shows is another name, and no record shows a
text with that character (`lookup_registered`). Nothing refuses such a name when it is saved.
-/

namespace DeclArchive

theorem Utf8.nulFree_upToNul (s : String) : NulFree (upToNul s) := by
  unfold NulFree upToNul
  rw [String.toList_ofList]
  intro mem
  simpa using List.mem_takeWhile_imp mem

/-- No record shows a name with `U+0000`. -/
theorem not_meets {name : String} (nul : ¬ Utf8.NulFree name) (capacity : Nat) (registered : String) :
    ¬ Meets capacity name registered := by
  rintro ⟨-, rfl⟩
  exact nul (Utf8.nulFree_upToNul registered)

/-- **A registered name is found if and only if it can be stored.** Every listed declaration is
registered, but a lookup of its name finds a record only if there is no `U+0000` in it. The bytes are in
one block of memory, as all bytes are. -/
theorem lookup_registered {forest : Forest} {widths : Widths} {b : Array UInt8}
    (saved : forest.toBytes widths = .ok b) (fits : b.size ≤ Heap.largestBlock) :
    ∃ c os, Container.parse b = .ok c ∧ c.records = .ok os ∧ os.length = forest.listed.length ∧
      ∀ listed ∈ forest.listed, ∀ d ∈ listed.2,
        (Utf8.NulFree d.info.publicName →
          ∃ record ∈ os, c.lookup d.info.publicName = .ok (some record)) ∧
        (¬ Utf8.NulFree d.info.publicName → c.lookup d.info.publicName = .ok none) := by
  obtain ⟨parts, builder, entries, built, -, -, inside, parse⟩ := Forest.open_returns saved fits
  have slots := built.slots.imp fun _ _ h => h _ inside
  obtain ⟨os, registered, perm⟩ := Container.records_eq
    (c := parts.opened (forest.topLevelNames.map Utf8.upToNul)) built.tracks.index slots
  rw [List.map_map] at perm
  refine ⟨_, os, parse, registered, ?_, fun listed mem d found => ?_⟩
  · rw [perm.length_eq, List.length_map, built.listed.length_eq]
  have lookup := built.lookup_meets inside (forest.topLevelNames.map Utf8.upToNul) d.info.publicName
  refine ⟨fun free => ?_, fun nul => ?_⟩
  · obtain ⟨e, he, -, same⟩ := exists_right_of_forall₂ built.listed mem
    obtain rfl : d = e.declaration := Option.some.inj (found.symm.trans same)
    -- its own record is met, if no earlier one is
    have own : Meets builder.index.capacity e.declaration.info.publicName
        e.declaration.info.publicName := (meets_iff free).2 rfl
    have met : (entries.find? fun e' => Meets builder.index.capacity e.declaration.info.publicName
        e'.declaration.info.publicName).isSome :=
      List.find?_isSome.2 ⟨e, he, decide_eq_true own⟩
    obtain ⟨first, here⟩ := Option.isSome_iff_exists.1 met
    refine ⟨first.record, ?_, by rw [lookup, here]; rfl⟩
    exact perm.mem_iff.2 (List.mem_map_of_mem (List.mem_of_find?_eq_some here))
  · have none : (entries.find? fun e => Meets builder.index.capacity d.info.publicName
        e.declaration.info.publicName) = none :=
      List.find?_eq_none.2 fun e _ => by simpa using not_meets nul _ _
    rw [lookup, none]
    rfl

namespace Sample

/-- The container of one declaration that has `U+0000` in its name. -/
def nulBytes : Array UInt8 :=
  #[1, 1, 5, 7, 10, 1, 1, 2, 15, 0, 0, 77, 0, 102, 0, 103, 0, 49, 0, 3, 4, 0, 0, 0, 7, 1, 9]

/-- The writer after the index. -/
def nulLast : Writer :=
  { (written "f\x00g").append [1, 9] with
    log := (written "f\x00g").log.push (index "f\x00g").summary }

theorem build_nul : (listing "f\x00g").build ⟨1, 1⟩ =
    (.ok ⟨format, nulLast.heap, [1], [15, 0], 1⟩, nulLast.log) := by
  have run : Returns (index "f\x00g").write (written "f\x00g") [15, 0] nulLast := by
    unfold Returns
    rfl
  exact build_listing (by decide) (by decide) (by decide) rfl run

theorem toBytes_nul : (listing "f\x00g").toBytes ⟨1, 1⟩ = .ok nulBytes := by
  unfold Forest.toBytes Forest.save
  rw [build_nul]
  rfl

end Sample

/-- The sample has a record, and a lookup of its name finds nothing. -/
theorem lookup_registered_nul : ∃ c os, Container.parse Sample.nulBytes = .ok c ∧
    c.records = .ok os ∧ os.length = 1 ∧ c.lookup "f\x00g" = .ok none := by
  obtain ⟨c, os, parse, registered, length, each⟩ := lookup_registered Sample.toBytes_nul (by decide)
  obtain ⟨-, missing⟩ := each _ (List.mem_singleton_self _) (Sample.code "f\x00g") rfl
  exact ⟨c, os, parse, registered, length, missing (by decide)⟩

end DeclArchive
