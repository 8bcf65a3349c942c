import DeclArchive.CommandLine.Run
import DeclArchive.Directory
import DeclArchive.Proofs.Container.RoundTrip

/-!
# Replacing a file

`FileView` says what there is to see of a file system: the content of each entry, and the entry that a
path leads to. A file system keeps its promises (`FileView.Lawful`) if a temporary file gets a name that
nothing has and goes when it is discarded, if giving it another name is one step, and if a request
changes nothing beyond what it is about, or nothing at all where it is refused.

From these promises alone, a file is replaced as a whole or not at all, whichever request is refused
(`FileView.Lawful.replace_run`). So a forest that is saved to a path, by itself or by the command that
writes, leaves its container there or every entry as it was (`saved_or_untouched`). A `Directory`
keeps the promises (`Directory.lawful`).
-/

namespace DeclArchive

/-! ## What is seen of a file system -/

theorem state_run_bind {σ α β : Type} (x : StateM σ α) (f : α → StateM σ β) (s : σ) :
    (x >>= f).run s = (f (x.run s).1).run (x.run s).2 := rfl

/-- The entries of a file system with states `σ`. -/
structure FileView (σ Entry : Type) where
  /-- The content of an entry, if there is one. -/
  content? : σ → Entry → Option (Array UInt8)
  /-- The entry that a path leads to. -/
  entry? : String → Option Entry
  /-- The entry of a temporary file. -/
  temporary : String → Entry

namespace FileView

variable {σ Entry : Type} (v : FileView σ Entry)

/-- All entries but these are there in both states with the same content, or in neither. -/
def SameBut (changed : List Entry) (s s' : σ) : Prop :=
  ∀ e, e ∉ changed → v.content? s' e = v.content? s e

/-- No entry was added, removed or changed. -/
def Untouched (s s' : σ) : Prop := v.SameBut [] s s'

/-- The entry has this content, and no other one was added, removed or changed. -/
structure Replaced (s s' : σ) (e : Entry) (content : Array UInt8) : Prop where
  content : v.content? s' e = some content
  others : v.SameBut [e] s s'

/-- The promises of a file system. Nothing is promised about which requests are granted. -/
structure Lawful [Files (StateM σ)] : Prop where
  /-- Reading changes nothing and returns what is there. -/
  read {path : String} {s s' : σ} {r : Except String (Array UInt8)}
    (run : (Files.read path : StateM σ _).run s = (r, s')) :
    v.Untouched s s' ∧ ∀ content, r = .ok content →
      ∃ e, v.entry? path = some e ∧ v.content? s e = some content
  create_refused {path reason : String} {s s' : σ}
    (run : (Files.createBeside path : StateM σ _).run s = (.error reason, s')) : v.Untouched s s'
  /-- A temporary file has a name that nothing had. -/
  create_granted {path t : String} {s s' : σ}
    (run : (Files.createBeside path : StateM σ _).run s = (.ok t, s')) :
    v.content? s (v.temporary t) = none ∧ v.SameBut [v.temporary t] s s'
  /-- Filling a temporary file changes no other file, also where it is refused on the way. -/
  fill {t : String} {content : Array UInt8} {s s' : σ} {r : Except String Unit}
    (run : (Files.fill t content : StateM σ _).run s = (r, s')) :
    v.SameBut [v.temporary t] s s' ∧
      (r = .ok () → v.content? s' (v.temporary t) = some content)
  persist_refused {t path reason : String} {s s' : σ}
    (run : (Files.persist t path : StateM σ _).run s = (.error reason, s')) : v.Untouched s s'
  /-- A temporary file that is given another name has that name alone. -/
  persist_granted {t path : String} {s s' : σ}
    (run : (Files.persist t path : StateM σ _).run s = (.ok (), s')) :
    ∃ e, v.entry? path = some e ∧ v.content? s' e = v.content? s (v.temporary t) ∧
      (v.temporary t ≠ e → v.content? s' (v.temporary t) = none) ∧
        v.SameBut [e, v.temporary t] s s'
  /-- A temporary file that is discarded is no longer there. -/
  discard {t : String} {s s' : σ} (run : (Files.discard t : StateM σ Unit).run s = ((), s')) :
    v.content? s' (v.temporary t) = none ∧ v.SameBut [v.temporary t] s s'

variable {v} {s s' s'' : σ} {changed : List Entry}

theorem SameBut.trans (h : v.SameBut changed s s') (k : v.SameBut changed s' s'') :
    v.SameBut changed s s'' := fun e other => (k e other).trans (h e other)

theorem SameBut.mono {changed' : List Entry} (h : v.SameBut changed s s')
    (sub : changed ⊆ changed') : v.SameBut changed' s s' := fun e other => h e fun mem => other (sub mem)

theorem Untouched.trans (h : v.Untouched s s') (k : v.Untouched s' s'') : v.Untouched s s'' :=
  SameBut.trans h k

theorem Untouched.replaced {e : Entry} {content : Array UInt8} (h : v.Untouched s s')
    (k : v.Replaced s' s'' e content) : v.Replaced s s'' e content :=
  ⟨k.content, (h.mono (List.nil_subset _)).trans k.others⟩

/-- An entry that was changed and is again as it was is no exception. -/
theorem SameBut.back {e : Entry} (h : v.SameBut (e :: changed) s s')
    (same : v.content? s' e = v.content? s e) : v.SameBut changed s s' := by
  intro e' other
  by_cases here : e' = e
  · rw [here, same]
  · exact h e' (by simp [here, other])

/-! ## Replacing -/

section

variable [Files (StateM σ)] (lawful : v.Lawful) {path : String} {content : Array UInt8}

include lawful

/-- A temporary file that is filled and given the name of a file replaces it; where that fails, at most
the temporary file was changed. -/
theorem Lawful.fillAndPersist_run {t : String} {r : Except String Unit}
    (run : (Files.fillAndPersist t path content : StateM σ _).run s = (r, s')) :
    match r with
    | .error _ => v.SameBut [v.temporary t] s s'
    | .ok () => ∃ e, v.entry? path = some e ∧ v.content? s' e = some content ∧
        (v.temporary t ≠ e → v.content? s' (v.temporary t) = none) ∧
          v.SameBut [e, v.temporary t] s s' := by
  unfold Files.fillAndPersist at run
  rw [state_run_bind] at run
  rcases filled : (Files.fill t content : StateM σ _).run s with ⟨reason | _, s₁⟩
  · rw [filled] at run
    cases run
    exact (lawful.fill filled).1
  rw [filled] at run
  obtain ⟨others, stored⟩ := lawful.fill filled
  dsimp only at run
  cases r with
  | error reason => exact others.trans ((lawful.persist_refused run).mono (List.nil_subset _))
  | ok =>
    obtain ⟨e, leads, here, gone, others'⟩ := lawful.persist_granted run
    refine ⟨e, leads, here.trans (stored rfl), gone, ?_⟩
    exact (others.mono (List.subset_cons_self e _)).trans others'

/-- **A file is replaced or nothing changes**, and no temporary file is left. -/
theorem Lawful.replace_run {r : Except String Unit}
    (run : (Files.replace path content : StateM σ _).run s = (r, s')) :
    match r with
    | .error _ => v.Untouched s s'
    | .ok () => ∃ e, v.entry? path = some e ∧ v.Replaced s s' e content := by
  unfold Files.replace at run
  rw [state_run_bind] at run
  rcases created : (Files.createBeside path : StateM σ _).run s with ⟨reason | t, s₁⟩
  · rw [created] at run
    cases run
    exact lawful.create_refused created
  rw [created] at run
  obtain ⟨fresh, added⟩ := lawful.create_granted created
  dsimp only at run
  rw [state_run_bind] at run
  rcases persisted : (Files.fillAndPersist t path content : StateM σ _).run s₁ with ⟨reason | _, s₂⟩
  · -- what was written so far is all in the temporary file, which goes
    have others := lawful.fillAndPersist_run persisted
    rw [persisted] at run
    cases run
    obtain ⟨gone, others'⟩ := lawful.discard (s := s₂) rfl
    exact ((added.trans others).trans others').back (gone.trans fresh.symm)
  · obtain ⟨e, leads, here, gone, others⟩ := lawful.fillAndPersist_run persisted
    rw [persisted] at run
    cases run
    refine ⟨e, leads, here, ?_⟩
    have others := (added.mono (List.subset_cons_self e _)).trans others
    intro e' other
    by_cases temporary : e' = v.temporary t
    · rw [temporary, gone fun same => other (by simp [temporary, same]), fresh]
    · exact others e' (by simp_all)

/-! ## Saving -/

variable {forest : Forest} {widths : Widths}

/-- A forest is saved to a path as its container, or nothing changes. -/
theorem Lawful.saveTo_run {outcome : Except Error Summary} {log : Log}
    (run : (forest.saveTo widths path : StateM σ _).run s = ((outcome, log), s')) :
    match outcome with
    | .error _ => v.Untouched s s'
    | .ok _ => ∃ b e, forest.toBytes widths = .ok b ∧ v.entry? path = some e ∧
        v.Replaced s s' e b := by
  unfold Forest.saveTo at run
  dsimp only at run
  rcases result : (forest.save widths .empty).result with e | summary
  · rw [result] at run
    cases run
    exact fun _ _ => rfl
  have bytes : forest.toBytes widths = .ok (forest.save widths .empty).stream.content := by
    rw [Forest.toBytes, result]
    rfl
  rw [result] at run
  dsimp only at run
  rw [state_run_bind] at run
  rcases replaced : (Files.replace path (forest.save widths .empty).stream.content :
    StateM σ _).run s with ⟨reason | _, s₁⟩
  · have untouched := lawful.replace_run replaced
    rw [replaced] at run
    cases run
    exact untouched
  · obtain ⟨e, leads, stored⟩ := lawful.replace_run replaced
    rw [replaced] at run
    cases run
    exact ⟨_, e, bytes, leads, stored⟩

/-- The command that writes saves the forest that it reads, or nothing changes. -/
theorem Lawful.write_run {input : String} {report : CommandLine.Report}
    (run : (CommandLine.write input path widths : StateM σ _).run s = (report, s')) :
    match report.result with
    | .error _ => v.Untouched s s'
    | .ok _ => ∃ source given forest b e, v.entry? input = some source ∧
        v.content? s source = some given ∧ CommandLine.forestOf input given = .ok forest ∧
          forest.toBytes widths = .ok b ∧ v.entry? path = some e ∧ v.Replaced s s' e b := by
  unfold CommandLine.write at run
  rcases check : widths.check with e | format
  · rw [check] at run
    cases run
    exact fun _ _ => rfl
  rw [check] at run
  dsimp only at run
  rw [state_run_bind] at run
  rcases given : (Files.read input : StateM σ _).run s with ⟨reason | content, s₁⟩
  · have untouched := (lawful.read given).1
    rw [given] at run
    cases run
    exact untouched
  obtain ⟨untouched, found⟩ := lawful.read given
  obtain ⟨source, leads, stored⟩ := found content rfl
  rw [given] at run
  dsimp only at run
  rcases parsed : CommandLine.forestOf input content with failure | forest
  · rw [parsed] at run
    cases run
    exact untouched
  rw [parsed] at run
  dsimp only at run
  rw [state_run_bind] at run
  rcases saved : (forest.saveTo widths path : StateM σ _).run s₁ with ⟨⟨e | summary, log⟩, s₂⟩
  · have untouched' := lawful.saveTo_run saved
    rw [saved] at run
    cases run
    exact untouched.trans untouched'
  · obtain ⟨b, e, bytes, leads', replaced⟩ := lawful.saveTo_run saved
    rw [saved] at run
    cases run
    exact ⟨source, content, forest, b, e, leads, stored, parsed, bytes, leads',
      untouched.replaced replaced⟩

end

end FileView

/-! ## Directories -/

namespace Directory

variable (d : Directory) (name other : String) (content : Array UInt8)

theorem content?_put : (d.put name content).content? other =
    if other = name then some content else d.content? other := by
  unfold put
  by_cases known : (d.content? name).isSome = true
  · -- the entry keeps its place and its name
    have same : ((fun e : String × Array UInt8 => e.1 == other) ∘ fun e =>
        if e.1 == name then (name, content) else e) = fun e => e.1 == other := by
      funext e
      by_cases here : e.1 = name <;> simp [here]
    rw [if_pos known]
    unfold content? at known ⊢
    dsimp only
    rw [List.find?_map, same, Option.map_map]
    by_cases here : other = name
    · rw [here] at same ⊢
      obtain ⟨e, found⟩ := Option.isSome_iff_exists.1 (Option.isSome_map ▸ known)
      have shown := List.find?_some found
      rw [found, if_pos rfl]
      simp_all
    · rw [if_neg here]
      refine Option.map_congr fun e found => ?_
      have shown := List.find?_some found
      simp_all
  · have none : d.entries.find? (fun e => e.1 == name) = none :=
      Option.map_eq_none_iff.1 (Option.not_isSome_iff_eq_none.1 known)
    rw [if_neg known]
    unfold content?
    dsimp only
    rw [List.find?_append]
    split_ifs with here
    · rw [here, none, Option.none_or, List.find?_singleton, beq_self_eq_true]
      rfl
    · rw [List.find?_singleton, if_neg (by simp [Ne.symm here]), Option.or_none]

@[simp]
theorem refuses_put : (d.put name content).refuses = d.refuses := by
  unfold put
  split <;> rfl

theorem content?_remove : (d.remove name).content? other =
    if other = name then none else d.content? other := by
  unfold remove content?
  dsimp only
  rw [List.find?_filter]
  split_ifs with here
  · rw [List.find?_eq_none.2, Option.map_none]
    simp [here]
  · congr 2
    funext e
    by_cases same : e.1 = other <;> simp [same, here]

theorem le_foldl_max (lengths : List Nat) (first : Nat) :
    first ≤ lengths.foldl max first ∧ ∀ n ∈ lengths, n ≤ lengths.foldl max first := by
  induction lengths generalizing first with
  | nil => exact ⟨le_rfl, nofun⟩
  | cons n lengths ih =>
    obtain ⟨above, rest⟩ := ih (max first n)
    refine ⟨(le_max_left first n).trans above, fun n' hn' => ?_⟩
    obtain rfl | later := List.mem_cons.1 hn'
    · exact (le_max_right first n').trans above
    · exact rest n' later

/-- The new name is longer than all names of entries. -/
theorem content?_freshName (path : String) : d.content? (d.freshName path) = none := by
  rw [content?, List.find?_eq_none.2, Option.map_none]
  intro e he same
  have longest := (le_foldl_max _ path.length).2 _ (List.mem_map_of_mem (f := (·.1.length)) he)
  simp only [beq_iff_eq.1 same, freshName, String.length_ofList, List.length_append,
    List.length_cons, List.length_replicate] at longest
  omega

/-- What is seen of a directory. -/
def view : FileView Directory String where
  content? := content?
  entry? := entryName?
  temporary := id

variable {d} in
theorem createBeside_granted {path t : String} {d' : Directory}
    (run : d.createBeside path = (.ok t, d')) : t = d.freshName path ∧ d' = d.put t #[] := by
  unfold createBeside at run
  split at run
  · cases run
  · cases run
  · cases run
    exact ⟨rfl, rfl⟩

/-- **A directory keeps its promises**, whatever it refuses. -/
theorem lawful : view.Lawful where
  read {path d d' r} run := by
    change (d.read path, d) = (r, d') at run
    obtain ⟨rfl, rfl⟩ := Prod.mk.inj run
    refine ⟨fun _ _ => rfl, fun content granted => ?_⟩
    unfold read at granted
    split at granted
    · cases granted
    · next found =>
      cases granted
      exact Option.bind_eq_some_iff.1 found
    · cases granted
  create_refused {path reason d d'} run := by
    change d.createBeside path = _ at run
    unfold createBeside at run
    split at run
    all_goals
      cases run
      try exact fun _ _ => rfl
  create_granted {path t d d'} run := by
    obtain ⟨rfl, rfl⟩ := createBeside_granted run
    refine ⟨d.content?_freshName path, fun e other => ?_⟩
    exact (d.content?_put _ _ _).trans (if_neg fun same => other (List.mem_singleton.2 same))
  fill {t content d d' r} run := by
    change d.fill t content = _ at run
    unfold fill at run
    split at run
    all_goals
      cases run
      refine ⟨fun e other => (d.content?_put _ _ _).trans
        (if_neg fun same => other (List.mem_singleton.2 same)), ?_⟩
    · nofun
    · exact fun _ => (d.content?_put _ _ _).trans (if_pos rfl)
  persist_refused {t path reason d d'} run := by
    change d.persist t path = _ at run
    unfold persist at run
    split at run
    all_goals
      cases run
      try exact fun _ _ => rfl
  persist_granted {t path d d'} run := by
    change d.persist t path = _ at run
    unfold persist at run
    split at run
    · cases run
    · next name content _ leads found =>
      cases run
      have after (e : String) : ((d.remove t).put name content).content? e =
          if e = name then some content else if e = t then none else d.content? e := by
        rw [content?_put, content?_remove]
      refine ⟨name, leads, ?_, fun ne => ?_, fun e other => ?_⟩
      · exact (after name).trans ((if_pos rfl).trans found.symm)
      · exact (after t).trans ((if_neg ne).trans (if_pos rfl))
      · have other := List.mem_cons.not.1 other
        exact (after e).trans ((if_neg fun same => other (.inl same)).trans
          (if_neg fun same => other (.inr (List.mem_singleton.2 same))))
    · cases run
  discard {t d d'} run := by
    change ((), d.remove t) = _ at run
    obtain rfl := (Prod.mk.inj run).2
    refine ⟨(d.content?_remove _ _).trans (if_pos rfl), fun e other => ?_⟩
    exact (d.content?_remove _ _).trans (if_neg fun same => other (List.mem_singleton.2 same))

/-- A directory that refuses nothing lets a file be replaced. -/
theorem replace_granted {path name : String} (grants : ∀ request, d.refuses request = none)
    (leads : entryName? path = some name) :
    ∃ d', (Files.replace path content : StateM Directory _).run d = (.ok (), d') := by
  have created : d.createBeside path = (.ok (d.freshName path), d.put (d.freshName path) #[]) := by
    rw [createBeside, grants, leads]
  have filled (t : String) (d₁ : Directory) (same : d₁.refuses = d.refuses) :
      d₁.fill t content = (.ok (), d₁.put t content) := by
    rw [fill, same, grants]
  have persisted (t : String) (d₁ : Directory) (same : d₁.refuses = d.refuses) :
      (d₁.put t content).persist t path =
        (.ok (), ((d₁.put t content).remove t).put name content) := by
    rw [persist, refuses_put, same, grants, leads, content?_put, if_pos rfl]
  have stored (t : String) (d₁ : Directory) (same : d₁.refuses = d.refuses) :
      (Files.fillAndPersist t path content : StateM Directory _).run d₁ =
        (.ok (), ((d₁.put t content).remove t).put name content) := by
    have filled' : (Files.fill t content : StateM Directory _).run d₁ = _ := filled t d₁ same
    unfold Files.fillAndPersist
    rw [state_run_bind, filled']
    exact persisted t d₁ same
  have created' : (Files.createBeside path : StateM Directory _).run d = _ := created
  refine ⟨(((d.put (d.freshName path) #[]).put (d.freshName path) content).remove
    (d.freshName path)).put name content, ?_⟩
  unfold Files.replace
  rw [state_run_bind, created']
  dsimp only
  rw [state_run_bind, stored _ _ (d.refuses_put _ _)]
  rfl

/-- So it lets every forest be saved that has a container. -/
theorem saveTo_granted {path name : String} {forest : Forest} {widths : Widths} {b : Array UInt8}
    (grants : ∀ request, d.refuses request = none) (leads : entryName? path = some name)
    (bytes : forest.toBytes widths = .ok b) :
    ∃ summary log d',
      (forest.saveTo widths path : StateM Directory _).run d = ((.ok summary, log), d') := by
  obtain ⟨d', replaced⟩ := d.replace_granted (forest.save widths .empty).stream.content grants leads
  unfold Forest.toBytes at bytes
  unfold Forest.saveTo
  dsimp only at bytes ⊢
  rcases result : (forest.save widths .empty).result with e | summary
  · rw [result] at bytes
    cases bytes
  · refine ⟨summary, (forest.save widths .empty).log, d', ?_⟩
    dsimp only
    rw [state_run_bind, replaced]
    rfl

end Directory

/-! ## Saving to a path -/

/-- **A save to a path replaces the file or changes nothing.** In a file system that keeps its promises,
whatever requests it refuses: a save that fails, by itself or as the command that writes, leaves every
entry as it was and none besides; one that succeeds leaves the container of the forest at the path, and
every other entry as it was. -/
theorem saved_or_untouched {σ Entry : Type} [Files (StateM σ)] {v : FileView σ Entry}
    (lawful : v.Lawful) (forest : Forest) (widths : Widths) (input path : String) (s : σ) :
    (match (forest.saveTo widths path : StateM σ _).run s with
      | ((.error _, _), s') => v.Untouched s s'
      | ((.ok _, _), s') => ∃ b e, forest.toBytes widths = .ok b ∧ v.entry? path = some e ∧
          v.Replaced s s' e b) ∧
    match (CommandLine.write input path widths : StateM σ _).run s with
      | (⟨.error _, _⟩, s') => v.Untouched s s'
      | (⟨.ok _, _⟩, s') => ∃ source given forest b e, v.entry? input = some source ∧
          v.content? s source = some given ∧ CommandLine.forestOf input given = .ok forest ∧
            forest.toBytes widths = .ok b ∧ v.entry? path = some e ∧ v.Replaced s s' e b := by
  constructor
  · rcases saved : (forest.saveTo widths path : StateM σ _).run s with ⟨⟨_ | _, _⟩, _⟩
    · exact lawful.saveTo_run saved
    · exact lawful.saveTo_run saved
  · rcases written : (CommandLine.write input path widths : StateM σ _).run s with ⟨⟨_ | _, _⟩, _⟩
    · exact lawful.write_run written
    · exact lawful.write_run written

/-- Two files. -/
def Sample.directory : Directory := { entries := [("a", #[1]), ("b", #[2])] }

/-- The container of the sample takes the place of one file, and that of a forest that cannot be read
takes the place of none. -/
theorem saved_or_untouched_sample :
    (∃ d', ((Sample.forest.saveTo ⟨1, 1⟩ "a" : StateM Directory _).run Sample.directory).2 = d' ∧
      d'.content? "a" = some Sample.bytes ∧ d'.content? "b" = some #[2]) ∧
    ∃ d', ((CommandLine.write "c" "a" ⟨1, 1⟩ : StateM Directory _).run Sample.directory).2 = d' ∧
      d'.content? "a" = some #[1] ∧ d'.content? "b" = some #[2] := by
  have leads : entryName? "a" = some "a" := by decide +kernel
  have missing : entryName? "c" = some "c" := by decide +kernel
  obtain ⟨summary, log, d', run⟩ :=
    Sample.directory.saveTo_granted (fun _ => rfl) leads Sample.toBytes_eq
  obtain ⟨saved, failed⟩ :=
    saved_or_untouched Directory.lawful Sample.forest ⟨1, 1⟩ "c" "a" Sample.directory
  constructor
  · rw [run] at saved ⊢
    obtain ⟨b, e, bytes, leads', content, others⟩ := saved
    cases Sample.toBytes_eq.symm.trans bytes
    cases leads.symm.trans leads'
    exact ⟨d', rfl, content, others "b" (by decide)⟩
  · rcases run : (CommandLine.write "c" "a" ⟨1, 1⟩ : StateM Directory _).run Sample.directory with
      ⟨⟨_ | _, _⟩, d'⟩
    · rw [run] at failed
      exact ⟨d', rfl, failed "a" (List.not_mem_nil), failed "b" (List.not_mem_nil)⟩
    · rw [run] at failed
      obtain ⟨source, given, -, -, -, leads', found, -⟩ := failed
      cases missing.symm.trans leads'
      cases found

end DeclArchive
