import DeclArchive.Proofs.Session
import Mathlib.Data.List.Dedup

/-!
# Interning

A text is appended when it is asked for the first time, and its place is the answer from then on.
`Writer.Interned ss w w'` says that the texts `ss` were asked for between `w` and `w'`: they became known, what
was known stays where it was, and what is new is behind that. `Write.Interns ss x` says so of every run of `x`
that succeeds; one that stops has asked for the first of `ss` only. Each record has its list of texts
(`Method.writtenTexts`, `Declaration.writtenTexts`), and so has each step of a session, whatever else it writes
(`Step.interns_run`). A session asks for the texts of its steps one after another
(`Builder.applyAll_interned`), so what it returns for texts and copies is told apart by the table at its end
(`interning_exact`).
-/

namespace DeclArchive

open Write

/-! ## Tables -/

namespace Writer

variable {w u v : Writer} {ss ts : List String}

/-- Every known text is where the table says, and no two are at one place. -/
structure Exact (w : Writer) : Prop where
  sound : w.Sound
  injective : ∀ {s t : String} {o : Offset},
    w.interned[s]? = some o → w.interned[t]? = some o → s = t

theorem exact_empty {widths : Widths} (h : Writer.empty widths = .ok w) : w.Exact where
  sound := sound_empty h
  injective {s _ _} known _ := by
    rw [interned_empty h s] at known
    cases known

/-- Between these writers the texts were asked for. -/
structure Interned (ss : List String) (w w' : Writer) : Prop where
  heap : w.heap.bytes.toList <+: w'.heap.bytes.toList
  mem : ∀ s, s ∈ w'.interned ↔ s ∈ w.interned ∨ s ∈ ss
  kept : ∀ {s : String} {o : Offset}, w.interned[s]? = some o → w'.interned[s]? = some o
  behind : ∀ {s : String} {o : Offset},
    w'.interned[s]? = some o → w.interned[s]? = some o ∨ w.heap.size ≤ o
  exact : w.Exact → w'.Exact

theorem Interned.trans (first : Interned ss w u) (second : Interned ts u v) :
    Interned (ss ++ ts) w v where
  heap := first.heap.trans second.heap
  mem s := by rw [second.mem, first.mem, List.mem_append, or_assoc]
  kept known := second.kept (first.kept known)
  behind known := (second.behind known).elim first.behind fun le =>
    .inr ((List.IsPrefix.length_le first.heap).trans le)
  exact := second.exact ∘ first.exact

/-- Where the table is the same nothing was asked for. -/
theorem interned_of_same (heap : w.heap.bytes.toList <+: u.heap.bytes.toList)
    (table : u.interned = w.interned) : Interned [] w u where
  heap := heap
  mem s := by simp [table]
  kept known := table ▸ known
  behind known := .inl (table ▸ known)
  exact h := ⟨fun s o known => (h.sound s o (table ▸ known)).mono heap,
    fun known known' => h.injective (table ▸ known) (table ▸ known')⟩

theorem interned_append (w : Writer) (data : List UInt8) : Interned [] w (w.append data) :=
  interned_of_same (w.grew_append data).heap rfl

theorem Interned.noting (h : Interned ss w u) (log : Log) : Interned ss w { u with log } where
  heap := h.heap
  mem := h.mem
  kept := h.kept
  behind := h.behind
  exact start := ⟨(h.exact start).sound, (h.exact start).injective⟩

/-- A text that is known is not appended again. -/
theorem interned_known {s : String} {o : Offset} (known : w.interned[s]? = some o) :
    Interned [s] w w where
  heap := List.prefix_rfl
  mem t := by
    refine ⟨.inl, fun h => h.elim id fun here => ?_⟩
    rw [List.mem_singleton.1 here, Std.HashMap.mem_iff_isSome_getElem?, known]
    rfl
  kept := id
  behind := .inl
  exact := id

/-- A text that is new is put behind all others. -/
theorem interned_intern {s : String} (new : w.interned[s]? = none) : Interned [s] w (w.intern s) where
  heap := (w.grew_intern s).heap
  mem t := by
    show t ∈ w.interned.insert s w.heap.next ↔ _
    rw [Std.HashMap.mem_insert, List.mem_singleton, beq_iff_eq, or_comm, eq_comm]
  kept {t o} known := by
    show (w.interned.insert s w.heap.next)[t]? = some o
    rw [Std.HashMap.getElem?_insert, if_neg ?_, known]
    intro same
    rw [← eq_of_beq same, new] at known
    cases known
  behind {t o} known := by
    change (w.interned.insert s w.heap.next)[t]? = some o at known
    rw [Std.HashMap.getElem?_insert] at known
    split_ifs at known
    · exact .inr (Option.some.inj known).le
    · exact .inl known
  exact h := by
    refine ⟨(w.grew_intern s).sound h.sound, fun {t t' o} known known' => ?_⟩
    change (w.interned.insert s w.heap.next)[t]? = some o at known
    change (w.interned.insert s w.heap.next)[t']? = some o at known'
    rw [Std.HashMap.getElem?_insert] at known known'
    -- the new text is behind every place that was in the table
    have apart {t : String} (old : w.interned[t]? = some w.heap.next) : False :=
      Nat.lt_irrefl _ (h.sound t _ old).lt
    split_ifs at known known' with here here'
    · exact (eq_of_beq here).symm.trans (eq_of_beq here')
    · cases known
      exact (apart known').elim
    · cases known'
      exact (apart known).elim
    · exact h.injective known known'

end Writer

/-! ## Operations -/

namespace Write

variable {α β : Type} {ss ts : List String}

/-- A run that succeeds asks for these texts, in this order; one that stops, for the first of them. -/
def Interns (ss : List String) (x : Write α) : Prop :=
  ∀ w, Ends (fun _ w' => ∃ done, done <+: ss ∧ w.Interned done w') (fun _ w' => w.Interned ss w') x w

theorem OnlyAppends.interns {x : Write α} (h : OnlyAppends x) : Interns [] x := by
  intro w
  rcases returns_or_stops x w with ⟨a, w', run⟩ | ⟨e, w', run⟩
  · obtain ⟨data, rfl⟩ := h.of_returns run
    exact ends_of_returns run (w.interned_append data)
  · obtain ⟨data, rfl⟩ := h.of_stops run
    exact ends_of_stops run ⟨[], List.prefix_rfl, w.interned_append data⟩

theorem interns_pure (a : α) : Interns [] (pure a : Write α) := OnlyAppends.interns (keeps_pure a)

theorem interns_throw (e : Error) : Interns [] (throw e : Write α) :=
  OnlyAppends.interns (keeps_throw e)

theorem interns_note (event : Event) : Interns [] (note event) :=
  fun _ => Writer.interned_of_same List.prefix_rfl rfl

theorem Interns.bind {x : Write β} {f : β → Write α} (first : Interns ss x)
    (next : ∀ b, Interns ts (f b)) : Interns (ss ++ ts) (x >>= f) := by
  intro w
  refine Ends.bind ((first w).imp (fun e t => ?_) fun b t here => here) fun b t here => ?_
  · rintro ⟨done, part, here⟩
    exact ⟨done, part.trans (List.prefix_append ss ts), here⟩
  -- where the second step stops, all texts of the first one were asked for
  · refine (next b t).imp (fun e t' => ?_) fun a t' there => here.trans there
    rintro ⟨done, part, there⟩
    exact ⟨ss ++ done, (List.prefix_append_right_inj ss).2 part, here.trans there⟩

/-- What only appends may follow. -/
theorem Interns.andThen {x : Write β} {f : β → Write α} (first : Interns ss x)
    (next : ∀ b, OnlyAppends (f b)) : Interns ss (x >>= f) := by
  rw [← List.append_nil ss]
  exact first.bind fun b => (next b).interns

theorem Interns.mapM {f : α → Write β} {texts : α → List String}
    (each : ∀ x, Interns (texts x) (f x)) (xs : List α) :
    Interns (xs.flatMap texts) (xs.mapM f) := by
  induction xs with
  | nil => exact interns_pure []
  | cons x xs ih =>
    rw [List.mapM_cons, List.flatMap_cons]
    exact (each x).bind fun _ => ih.andThen fun _ => keeps_pure _

theorem interns_text (s : String) : Interns [s] (text s) := by
  intro w
  unfold Ends
  rw [text_run]
  cases known : w.interned[s]? with
  | some o => exact Writer.interned_known known
  | none => exact Writer.interned_intern known

theorem interns_texts (ss : List String) : Interns ss (texts ss) := by
  have each := Interns.mapM interns_text ss
  rwa [List.flatMap_singleton'] at each

end Write

/-! ## Types -/

theorem Part.interns_write (p : Part) : Interns p.texts p.write := by
  cases p with
  | name s => exact interns_text s
  | protocols ss => exact (interns_texts ss).andThen fun _ => onlyAppends_arrayOrNull _

theorem TypeExpr.interns_write (t : TypeExpr) : Interns t.texts t.write := by
  unfold TypeExpr.write
  rw [writeParts_eq]
  exact (Interns.mapM Part.interns_write t.parts).andThen fun refs =>
    onlyAppends_position.bind fun _ => (t.onlyAppends_writeNode refs).bind fun _ => keeps_pure _

theorem interns_writeSignature (ts : List TypeExpr) :
    Interns (ts.flatMap TypeExpr.texts) (writeSignature ts) := by
  have texts : (partsOfTypes ts).flatMap Part.texts = ts.flatMap TypeExpr.texts := by
    rw [partsOfTypes_eq, List.flatMap_assoc]
    rfl
  unfold writeSignature
  rw [writePartsOfTypes_eq fun t _ => t.writeParts_eq, ← texts]
  exact (Interns.mapM Part.interns_write _).andThen fun refs =>
    (onlyAppends_count _).bind fun _ => (onlyAppends_writeNodes ts refs).bind fun _ => keeps_pure _

/-! ## Records -/

/-- The names of a record, in the order in which they are written. -/
def Info.writtenTexts (i : Info) : List String :=
  if i.hasDistinctName then [i.publicName, i.name] else [i.name]

theorem Info.interns_writeNames (i : Info) : Interns i.writtenTexts i.writeNames := by
  unfold Info.writtenTexts Info.writeNames
  split_ifs
  · exact (interns_text _).bind fun _ => (interns_text _).andThen fun _ =>
      (onlyAppends_pointer _).bind fun _ => (onlyAppends_pointer _).bind fun _ => keeps_pure _
  · exact interns_text _

/-- A text that is left out if it is empty. -/
def unlessEmpty (s : String) : List String := if s.isEmpty then [] else [s]

theorem interns_writeTextOrNull (s : String) : Interns (unlessEmpty s) (writeTextOrNull s) := by
  unfold unlessEmpty writeTextOrNull
  split_ifs
  · exact interns_pure _
  · exact interns_text s

/-- The texts of a method, in the order in which they are written. -/
def Method.writtenTexts (m : Method) : List String :=
  m.info.writtenTexts ++ (m.signature.flatMap TypeExpr.texts ++ unlessEmpty m.encoding)

theorem Method.interns_write (module : UInt16) (m : Method) :
    Interns m.writtenTexts (m.write module) :=
  m.info.interns_writeNames.bind fun _ => (interns_writeSignature _).bind fun _ =>
    (interns_writeTextOrNull _).andThen fun _ => (m.info.onlyAppends_writeBase _ _ _).bind fun _ =>
    (onlyAppends_pointer _).bind fun _ => (onlyAppends_pointer _).bind fun _ => keeps_pure _

theorem interns_writeAccessor (module : UInt16) (m? : Option Method) :
    Interns (m?.elim [] Method.writtenTexts) (writeAccessor module m?) := by
  cases m? with
  | none => exact interns_pure _
  | some m => exact m.interns_write module

/-- The texts of a property and its accessors, in the order in which they are written. -/
def Property.writtenTexts (p : Property) : List String :=
  p.info.writtenTexts ++ (p.getter?.elim [] Method.writtenTexts ++ p.setter?.elim [] Method.writtenTexts)

theorem Property.interns_write (module : UInt16) (p : Property) :
    Interns p.writtenTexts (p.write module) :=
  p.info.interns_writeNames.bind fun _ => (interns_writeAccessor module _).bind fun _ =>
    (interns_writeAccessor module _).andThen fun _ => (p.info.onlyAppends_writeBase _ _ _).bind fun _ =>
    (onlyAppends_pointer _).bind fun _ => (onlyAppends_pointer _).bind fun _ => keeps_pure _

theorem interns_noteInitializers (methods : List Method) : Interns [] (noteInitializers methods) := by
  unfold noteInitializers
  cases initializerWarning? methods with
  | none =>
    cases initializerIndex methods with
    | ok _ => exact interns_pure _
    | error _ => exact interns_throw _
  | some event =>
    refine (interns_note event).bind fun _ => ?_
    cases initializerIndex methods with
    | ok _ => exact interns_pure _
    | error _ => exact interns_throw _

/-- The texts of members, in the order in which they are written. -/
def Members.writtenTexts (m : Members) : List String :=
  (sortByPublicName Method.info m.instanceMethods).flatMap Method.writtenTexts ++
    ((sortByPublicName Method.info m.staticMethods).flatMap Method.writtenTexts ++
      ((sortByPublicName Property.info m.properties).flatMap Property.writtenTexts ++
        sortNames m.protocols))

theorem Members.interns_write (module : UInt16) (m : Members) :
    Interns m.writtenTexts (m.write module) :=
  (interns_noteInitializers _).bind fun _ => (Interns.mapM (Method.interns_write module) _).bind fun _ =>
    (Interns.mapM (Method.interns_write module) _).bind fun _ =>
    (Interns.mapM (Property.interns_write module) _).bind fun _ => (interns_texts _).andThen fun _ =>
    (onlyAppends_arrayOrNull _).bind fun _ => (onlyAppends_arrayOrNull _).bind fun _ =>
    (onlyAppends_arrayOrNull _).bind fun _ => (onlyAppends_arrayOrNull _).bind fun _ => keeps_pure _

theorem interns_writeFields (fields : List Field) :
    Interns (fields.map Field.name ++ (fields.map Field.type).flatMap TypeExpr.texts)
      (writeFields fields) := by
  unfold writeFields
  split_ifs with none
  · rw [List.isEmpty_iff.1 none]
    exact interns_pure _
  · exact (interns_texts _).bind fun _ => (onlyAppends_array _).interns.bind fun _ =>
      (interns_writeSignature _).andThen fun _ => keeps_pure _

/-- The texts of a body, in the order in which they are written. -/
def Body.writtenTexts : Body → List String
  | .function signature _ => signature.flatMap TypeExpr.texts
  | .global type => type.texts
  | .code text => [text]
  | .record _ fields => fields.map Field.name ++ (fields.map Field.type).flatMap TypeExpr.texts
  | .protocol members => members.writtenTexts
  | .interface base? members => members.writtenTexts ++ unlessEmpty (base?.getD "")
  | .category _ _ => []

/-- The texts of a declaration, in the order in which they are written; a category is not written. -/
def Declaration.writtenTexts (d : Declaration) : List String :=
  match d.body with
  | .category _ _ => []
  | body => d.info.writtenTexts ++ body.writtenTexts

theorem Declaration.interns_write (module : UInt16) (d : Declaration) :
    Interns d.writtenTexts (d.write module) := by
  have names := d.info.interns_writeNames
  have base (names : Offset) (flags : UInt8) := d.info.onlyAppends_writeBase names flags module
  unfold Declaration.writtenTexts Declaration.write
  cases d.body with
  | function =>
    exact names.bind fun _ => (interns_writeSignature _).andThen fun _ => (base _ _).bind fun _ =>
      (onlyAppends_pointer _).bind fun _ => keeps_pure _
  | global type =>
    exact names.bind fun _ => type.interns_write.andThen fun _ => (base _ _).bind fun _ =>
      (onlyAppends_pointer _).bind fun _ => keeps_pure _
  | code =>
    exact names.bind fun _ => (interns_text _).andThen fun _ => (base _ _).bind fun _ =>
      (onlyAppends_pointer _).bind fun _ => keeps_pure _
  | record =>
    exact names.bind fun _ => (interns_writeFields _).andThen fun _ => (base _ _).bind fun _ =>
      (onlyAppends_pointer _).bind fun _ => (onlyAppends_pointer _).bind fun _ => keeps_pure _
  | protocol members =>
    exact names.bind fun _ => (members.interns_write _).andThen fun _ => (base _ _).bind fun _ =>
      (WrittenMembers.onlyAppends_writePointers _).bind fun _ => keeps_pure _
  | interface _ members =>
    exact names.bind fun _ => (members.interns_write _).bind fun _ =>
      (interns_writeTextOrNull _).andThen fun _ => (base _ _).bind fun _ =>
      (WrittenMembers.onlyAppends_writePointers _).bind fun _ => (onlyAppends_pointer _).bind fun _ =>
      keeps_pure _
  | category => exact interns_throw _

/-! ## Steps -/

theorem NameIndex.interns_write (t : NameIndex) : Interns [] t.write :=
  (OnlyAppends.interns (Keeps.mapM (fun _ => onlyAppends_arrayOrNull _) _)).bind fun _ =>
    (interns_note _).bind fun _ => interns_pure _

namespace Build

variable {α β : Type} {ss : List String}

/-- A run that succeeds asks for these texts, in this order; one that stops, for the first of them. -/
def Interns (ss : List String) (x : Build α) : Prop :=
  ∀ b, Ends (fun _ b' => ∃ done, done <+: ss ∧ b.writer.Interned done b'.writer)
    (fun _ b' => b.writer.Interned ss b'.writer) x b

theorem Interns.returning {x : Build α} (h : Interns ss x) (f : α → β) :
    Interns ss (x >>= fun a => pure (f a)) :=
  fun b => (h b).bind fun _ _ here => ends_pure here

theorem interns_write {x : Write α} (h : Write.Interns ss x) : Interns ss (write x) := by
  intro b
  have ends := h b.writer
  rcases returns_or_stops x b.writer with ⟨a, w, run⟩ | ⟨e, w, stop⟩
  · have written : Returns (write x) b a ⟨w, b.index⟩ := returns_write.2 ⟨run, rfl⟩
    exact ends_of_returns written (ends.of_returns run)
  · have stopped : Stops (write x) b e ⟨w, b.index⟩ := stops_write.2 ⟨stop, rfl⟩
    exact ends_of_stops stopped (ends.of_stops stop)

theorem interns_declare (module : UInt16) (d : Declaration) :
    Interns d.writtenTexts (declare module d) := by
  intro b
  have ends := d.interns_write module b.writer
  rcases returns_or_stops (d.write module) b.writer with ⟨record, w, run⟩ | ⟨e, w, stop⟩
  · obtain ⟨log, declared⟩ := declare_run run
    exact ends_of_returns declared ((ends.of_returns run).noting log)
  · exact ends_of_stops (declare_stops stop) (ends.of_stops stop)

theorem interns_addName (name : String) (o : Offset) : Interns [] (addName name o) := by
  intro b
  obtain ⟨log, -, added⟩ := addName_run name o b
  exact ends_of_returns added (Writer.interned_of_same List.prefix_rfl rfl)

theorem interns_writeIndex : Interns [] writeIndex :=
  fun b => interns_write b.index.interns_write b

end Build

/-- The texts that a step asks for, in this order. -/
def Step.writtenTexts : Step → List String
  | .text s => [s]
  | .type t => t.texts
  | .signature ts => ts.flatMap TypeExpr.texts
  | .method _ m => m.writtenTexts
  | .property _ p => p.writtenTexts
  | .declaration _ d => d.writtenTexts
  | _ => []

theorem Step.interns_run (step : Step) : Build.Interns step.writtenTexts step.run := by
  have writing {x : Write Offset} {ss : List String} (h : Write.Interns ss x) :
      Build.Interns ss (Step.writing x) := (Build.interns_write h).returning _
  cases step with
  | byte | uint16 | int16 | uint32 | uint64 | freshText =>
    exact writing (onlyAppends_bytes _).interns
  | text s => exact writing (interns_text s)
  | pointer target => exact writing (onlyAppends_pointer target).interns
  | count n => exact writing (onlyAppends_count n).interns
  | array targets => exact writing (onlyAppends_array targets).interns
  | type t => exact writing t.interns_write
  | signature ts => exact writing (interns_writeSignature ts)
  | method module m => exact writing (m.interns_write module)
  | property module p => exact writing (p.interns_write module)
  | declaration module d => exact (Build.interns_declare module d).returning _
  | addName name o => exact (Build.interns_addName name o).returning _
  | writeIndex => exact Build.interns_writeIndex.returning _

/-- What a step asked for: all its texts if it succeeded, and the first of them if it failed. -/
def Step.AskedFor (step : Step) (ss : List String) : Except Error Answer → Prop
  | .ok _ => ss = step.writtenTexts
  | .error _ => ss <+: step.writtenTexts

namespace Builder

theorem apply_interned (b : Builder) (step : Step) :
    ∃ ss, step.AskedFor ss (b.apply step).1 ∧ b.writer.Interned ss (b.apply step).2.writer := by
  have ends := step.interns_run b
  unfold apply
  rcases returns_or_stops step.run b with ⟨answer, b', run⟩ | ⟨e, b', stop⟩
  · rw [run]
    exact ⟨_, rfl, ends.of_returns run⟩
  · rw [stop]
    exact ends.of_stops stop

/-! ## Sessions -/

theorem applyAll_interned (b : Builder) (steps : List Step) :
    ∃ asked : List (List String),
      List.Forall₂ (fun call ss => call.1.AskedFor ss call.2) (steps.zip (b.applyAll steps).1) asked ∧
        b.writer.Interned asked.flatten (b.applyAll steps).2.writer := by
  induction steps generalizing b with
  | nil => exact ⟨[], .nil, Writer.interned_of_same List.prefix_rfl rfl⟩
  | cons step rest ih =>
    obtain ⟨ss, first, here⟩ := b.apply_interned step
    obtain ⟨asked, others, there⟩ := ih (b.apply step).2
    exact ⟨ss :: asked, .cons first others, here.trans there⟩

variable {b : Builder} {s : String} {o : Offset} {steps : List Step} {i : Nat}

theorem apply_text_known (known : b.writer.interned[s]? = some o) :
    b.apply (.text s) = (.ok (.offset o), b) := by
  show (Step.writing (Write.text s)).run.run b = _
  unfold Step.writing
  rw [run_bind, Build.run_write, text_run, known]
  rfl

theorem apply_text_new (new : b.writer.interned[s]? = none) :
    b.apply (.text s) = (.ok (.offset b.writer.heap.next), ⟨b.writer.intern s, b.index⟩) := by
  show (Step.writing (Write.text s)).run.run b = _
  unfold Step.writing
  rw [run_bind, Build.run_write, text_run, new]
  rfl

theorem apply_freshText (b : Builder) (s : String) :
    b.apply (.freshText s) =
      (.ok (.offset b.writer.heap.next), ⟨b.writer.append (Utf8.encode s ++ [0]), b.index⟩) := rfl

/-- The place that is returned for a text is that of the table, and remains it. -/
theorem text_answered (here : steps[i]? = some (.text s)) :
    ∃ o, (b.applyAll steps).1[i]? = some (.ok (.offset o)) ∧
      (b.applyAll steps).2.writer.interned[s]? = some o := by
  obtain ⟨_, after, now, -, answer, last⟩ := b.applyAll_at here
  have applied : ∃ o next, now.apply (.text s) = (.ok (.offset o), next) ∧
      next.writer.interned[s]? = some o := by
    cases known : now.writer.interned[s]? with
    | some o => exact ⟨o, now, apply_text_known known, known⟩
    | none => exact ⟨_, _, apply_text_new known, Std.HashMap.getElem?_insert_self⟩
  obtain ⟨o, next, run, known⟩ := applied
  rw [run] at answer last
  obtain ⟨_, -, rest⟩ := next.applyAll_interned after
  exact ⟨o, answer, last ▸ rest.kept known⟩

/-- No text of the table is ever at the place of a copy. -/
theorem freshText_answered (start : b.writer.Exact) (here : steps[i]? = some (.freshText s)) :
    ∃ o : Offset, (b.applyAll steps).1[i]? = some (.ok (.offset o)) ∧
      ∀ t : String, (b.applyAll steps).2.writer.interned[t]? ≠ some o := by
  obtain ⟨before, after, now, reached, answer, last⟩ := b.applyAll_at here
  obtain ⟨_, -, earlier⟩ := b.applyAll_interned before
  rw [reached] at earlier
  rw [apply_freshText] at answer last
  refine ⟨_, answer, fun t known => ?_⟩
  rw [last] at known
  obtain ⟨_, -, rest⟩ := applyAll_interned _ after
  rcases rest.behind known with old | le
  · exact Nat.lt_irrefl _ ((earlier.exact start).sound t _ old).lt
  · rw [Writer.append_heap, Heap.size_append, List.length_append, List.length_singleton] at le
    exact absurd le (Nat.not_le.2 (Nat.lt_add_of_pos_right (Nat.succ_pos _)))

end Builder

/-! ## Exactness -/

/-- There are as many keys as different texts. -/
theorem size_of_mem_iff {table : Std.HashMap String Offset} {ss : List String}
    (mem : ∀ s, s ∈ table ↔ s ∈ ss) : table.size = ss.dedup.length := by
  have perm : table.keys.Perm ss.dedup :=
    (List.perm_ext_iff_of_nodup table.nodup_keys (List.nodup_dedup ss)).2 fun s => by
      rw [Std.HashMap.mem_keys, mem, List.mem_dedup]
  rw [← Std.HashMap.length_keys, perm.length_eq]

/-- Texts were interned exactly by these steps, which had these answers and led to `last`. -/
structure InternsExactly (steps : List Step) (answers : List (Except Error Answer)) (last : Builder) :
    Prop where
  /-- There is an answer to every step. -/
  answered : answers.length = steps.length
  /-- The known texts are those that were asked for, and are counted once. -/
  asked : ∃ asked : List (List String),
    List.Forall₂ (fun call ss => call.1.AskedFor ss call.2) (steps.zip answers) asked ∧
      (∀ s, s ∈ last.writer.interned ↔ s ∈ asked.flatten) ∧
        last.writer.interned.size = asked.flatten.dedup.length
  /-- A text is answered with its place in the table. -/
  placed : ∀ (i : Nat) s, steps[i]? = some (.text s) →
    ∃ o : Offset, answers[i]? = some (.ok (.offset o)) ∧ last.writer.interned[s]? = some o
  /-- Two texts have one place if and only if they are the same. -/
  same : ∀ (i j : Nat) s t, steps[i]? = some (.text s) → steps[j]? = some (.text t) →
    ∃ o o', answers[i]? = some (.ok (.offset o)) ∧ answers[j]? = some (.ok (.offset o')) ∧
      (o = o' ↔ s = t)
  /-- No two texts of the table are at one place, whichever steps asked for them. -/
  injective : ∀ (s t : String) o, last.writer.interned[s]? = some o →
    last.writer.interned[t]? = some o → s = t
  /-- A copy has a place of its own, at which no text is. -/
  apart : ∀ (i : Nat) s, steps[i]? = some (.freshText s) →
    ∃ o : Offset, answers[i]? = some (.ok (.offset o)) ∧
      ∀ t : String, last.writer.interned[t]? ≠ some o
  /-- Every known text is in the heap, where the table says. -/
  stored : ∀ (s : String) o, last.writer.interned[s]? = some o → last.writer.heap.Stores o s
  /-- A text that is known is not appended again. -/
  again : ∀ (s : String) o, last.writer.interned[s]? = some o →
    last.apply (.text s) = (.ok (.offset o), last)
  /-- A text that is new is appended and becomes known. -/
  first : ∀ s, s ∉ last.writer.interned → last.apply (.text s) =
    (.ok (.offset last.writer.heap.next), ⟨last.writer.intern s, last.index⟩)
  /-- A copy is appended, and the table does not change. -/
  copy : ∀ s, last.apply (.freshText s) = (.ok (.offset last.writer.heap.next),
    ⟨last.writer.append (Utf8.encode s ++ [0]), last.index⟩)

/-- **Interning is exact over whole sessions** from a fresh writer, failing steps included. Two texts have one
place if and only if they are the same, a copy has a place of its own, and the table holds each text that any
step asked for once, where it is in the heap. As every beginning of a session is one, this is so at all times. -/
theorem interning_exact {widths : Widths} {w : Writer} {index : NameIndex} {steps : List Step}
    {answers : List (Except Error Answer)} {last : Builder} (start : Writer.empty widths = .ok w)
    (session : Builder.applyAll ⟨w, index⟩ steps = (answers, last)) :
    InternsExactly steps answers last := by
  have length := Builder.length_applyAll ⟨w, index⟩ steps
  obtain ⟨asked, each, interned⟩ := Builder.applyAll_interned ⟨w, index⟩ steps
  have text {i s} := @Builder.text_answered ⟨w, index⟩ s steps i
  have copied {i s} := @Builder.freshText_answered ⟨w, index⟩ s steps i (Writer.exact_empty start)
  rw [session] at length each interned text copied
  have mem (s : String) : s ∈ last.writer.interned ↔ s ∈ asked.flatten := by
    rw [interned.mem, Std.HashMap.mem_iff_isSome_getElem?, Writer.interned_empty start]
    simp
  have exact := interned.exact (Writer.exact_empty start)
  constructor
  · exact length
  · exact ⟨asked, each, mem, size_of_mem_iff mem⟩
  · exact fun i s => text
  · intro i j s t here there
    obtain ⟨o, answer, known⟩ := text here
    obtain ⟨o', answer', known'⟩ := text there
    refine ⟨o, o', answer, answer', fun h => exact.injective known (h ▸ known'), ?_⟩
    rintro rfl
    exact Option.some.inj (known.symm.trans known')
  · exact fun s t o => exact.injective
  · exact fun i s => copied
  · exact exact.sound
  · exact fun s o => Builder.apply_text_known
  · intro s new
    exact Builder.apply_text_new (Std.HashMap.getElem?_eq_none new)
  · exact last.apply_freshText

/-- A text that follows a copy of it has a place of its own, and keeps it past a step that fails. -/
theorem interning_exact_after_copy :
    let w : Writer := { format := ⟨⟨1, 1⟩, by decide⟩ }
    let session := Builder.applyAll ⟨w, .empty 1⟩
      [.freshText "ab", .text "ab", .array [300], .text "", .text "ab"]
    Writer.empty ⟨1, 1⟩ = .ok w ∧ ∃ copy place empty : Offset,
      session.1[0]? = some (.ok (.offset copy)) ∧ session.1[1]? = some (.ok (.offset place)) ∧
        session.1[3]? = some (.ok (.offset empty)) ∧ session.1[4]? = some (.ok (.offset place)) ∧
          copy ≠ place ∧ empty ≠ place := by
  intro w session
  have start : Writer.empty ⟨1, 1⟩ = .ok w := rfl
  have exact := interning_exact start (show session = (session.1, session.2) from rfl)
  obtain ⟨copy, copied, none⟩ := exact.apart 0 "ab" rfl
  obtain ⟨place, first, known⟩ := exact.placed 1 "ab" rfl
  obtain ⟨empty, place₃, third, first₃, apart⟩ := exact.same 3 1 "" "ab" rfl rfl
  obtain ⟨place₄, place₁, fourth, first₄, same⟩ := exact.same 4 1 "ab" "ab" rfl rfl
  obtain rfl : place = place₃ := by simpa using first.symm.trans first₃
  obtain rfl : place = place₁ := by simpa using first.symm.trans first₄
  obtain rfl := same.2 rfl
  refine ⟨start, copy, place₄, empty, copied, first, third, fourth, ?_, ?_⟩
  · rintro rfl
    exact none "ab" known
  · exact fun h => absurd (apart.1 h) (by decide)

end DeclArchive
