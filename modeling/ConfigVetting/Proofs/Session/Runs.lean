import ConfigVetting.Proofs.Session.Following

/-! # Staging over whole runs

A session takes batches one after another while the stored rows stay what they are. Between its calls the
rest of the world may change in any way, and rejected batches may come in between. What is staged after
such a run is what the edits of the accepted batches make of nothing, staged one by one; so what each of
them keeps holds after every run (`ConfigVetting.Session.Accepts.invariant`).
-/

namespace ConfigVetting

open WorldM

/-- The edits of a batch in the order in which they are staged: those that are context only come
first. -/
def Schema.inOrder (schema : Schema) (edits : List Edit) : List KeyedEdit :=
  (schema.resolved edits).filter (fun keyed => !keyed.edit.validateNow) ++
    (schema.resolved edits).filter fun keyed => keyed.edit.validateNow

/-- Each edit that is put in order was submitted. -/
theorem Schema.edit_mem_of_mem_inOrder {schema : Schema} (sound : schema.IsSound)
    {edits : List Edit} {keyed : KeyedEdit} (member : keyed ∈ schema.inOrder edits) :
    keyed.edit ∈ edits := by
  have resolved : keyed ∈ schema.resolved edits := by
    rcases List.mem_append.mp member with context | checked
    · exact (List.mem_filter.mp context).1
    · exact (List.mem_filter.mp checked).1
  obtain ⟨edit, given, found⟩ := List.mem_filterMap.mp resolved
  cases read : schema.keyed edit with
  | error rejection =>
      rw [read] at found
      cases found
  | ok other =>
      rw [read] at found
      cases found
      exact (Schema.isSound_of_keyed sound read).2 ▸ given

namespace Staged

variable {setting : Setting}

/-- Whether an edit can be staged over some stored rows, with what is staged then: it is counted and
recorded, and if it is checked its row is there or not as it needs it. -/
structure Takes (rows : ByName Fields) (staged : Staged) (keyed : KeyedEdit) (later : Staged) :
    Prop where
  added : ∃ world after, world.store.rows = rows ∧
    (staged.addContext keyed).outcome world = (.ok later, after)
  checked : keyed.edit.validateNow → ∃ world after, world.store.rows = rows ∧
    (staged.checkExistence keyed).outcome world = (.ok (), after)

private theorem takes_of_addChecked {staged later : Staged} {keyed : KeyedEdit} {world after : World}
    (added : (addChecked setting staged keyed).outcome world = (.ok later, after)) :
    staged.Takes world.store.rows keyed later := by
  unfold addChecked at added
  obtain ⟨_, first, existence, rest⟩ := outcome_bind_eq_ok_iff.mp added
  have firstRead : world.OnlyRead setting first :=
    (isReading_checkExistence staged keyed).onlyRead existence
  refine ⟨?_, fun _ => ⟨world, first, rfl, existence⟩⟩
  by_cases removes : keyed.removesRow
  · rw [if_pos removes] at rest
    obtain ⟨_, second, deletable, recorded⟩ := outcome_bind_eq_ok_iff.mp rest
    have secondRead : first.OnlyRead setting second :=
      (DeleteIntegrity.isReading_check _ _).onlyRead deletable
    exact ⟨second, after, secondRead.rows.trans firstRead.rows, recorded⟩
  · rw [if_neg removes] at rest
    exact ⟨first, after, firstRead.rows, rest⟩

/-- What each edit of a loop keeps as it is staged holds after the loop. -/
theorem invariant_of_foldlM {step : Staged → KeyedEdit → WorldM Staged}
    (reading : ∀ staged keyed, (step staged keyed).IsReading setting) {rows : ByName Fields}
    (Holds : List KeyedEdit → Staged → Prop) {edits : List KeyedEdit}
    (keeps : ∀ keyed ∈ edits, ∀ earlier staged later world after, world.store.rows = rows →
      (step staged keyed).outcome world = (.ok later, after) → Holds earlier staged →
        Holds (earlier ++ [keyed]) later)
    {earlier : List KeyedEdit} {staged last : Staged} {world after : World}
    (stored : world.store.rows = rows) (holds : Holds earlier staged)
    (added : (edits.foldlM step staged).outcome world = (.ok last, after)) :
    Holds (earlier ++ edits) last := by
  induction edits generalizing earlier staged world with
  | nil =>
      cases added
      rwa [List.append_nil]
  | cons keyed edits ih =>
      rw [List.forall_mem_cons] at keeps
      rw [List.foldlM_cons] at added
      obtain ⟨between, middle, head, rest⟩ := outcome_bind_eq_ok_iff.mp added
      have read := (reading staged keyed).onlyRead head
      have stepped := keeps.1 earlier staged between world middle stored head holds
      rw [List.append_cons]
      exact ih keeps.2 (read.rows.trans stored) stepped rest

end Staged

namespace Session

variable {engine : Engine}

/-- What a prepared batch keeps edit by edit as they are staged holds after it. -/
theorem IsPrepared.invariant (sound : engine.setting.schema.IsSound) {staged prepared : Staged}
    {edits : List Edit} {world : World} {keyed : List KeyedEdit} {groups : List Group}
    (isPrepared : IsPrepared engine staged edits world keyed prepared groups)
    (Holds : List KeyedEdit → Staged → Prop)
    (keeps : ∀ (keyed : KeyedEdit) (earlier : List KeyedEdit) (staged later : Staged),
      keyed.IsSound engine.setting.schema → staged.Takes world.store.rows keyed later →
        Holds earlier staged → Holds (earlier ++ [keyed]) later)
    {earlier : List KeyedEdit} (holds : Holds earlier staged) :
    Holds (earlier ++ engine.setting.schema.inOrder edits) prepared := by
  obtain ⟨context, first, last, contextAdded, checkedAdded⟩ := isPrepared.recorded
  have keyedSound : ∀ one ∈ keyed, one.IsSound engine.setting.schema := fun one member =>
    (isPrepared.isSound_of_mem sound member).1
  have firstRead : world.OnlyRead engine.setting first :=
    (IsReading.foldlM Staged.isReading_addContext _ _).onlyRead contextAdded
  unfold Schema.inOrder
  rw [Schema.resolved_eq isPrepared.resolved, ← List.append_assoc]
  -- An edit that is context only is taken without a check of its row.
  have reading : ∀ staged keyed, (Staged.addContext staged keyed).IsReading engine.setting :=
    Staged.isReading_addContext
  have contextHolds := Staged.invariant_of_foldlM reading Holds
    (fun one member before between after world last stored added => by
      obtain ⟨inside, unchecked⟩ := List.mem_filter.mp member
      refine keeps one before between after (keyedSound one inside) ⟨⟨world, last, stored, added⟩,
        fun now => ?_⟩
      simp [now] at unchecked) rfl holds contextAdded
  exact Staged.invariant_of_foldlM Staged.isReading_addChecked Holds
    (fun one member before between after other last stored added => by
      have taken := Staged.takes_of_addChecked added
      rw [stored] at taken
      exact keeps one before between after (keyedSound one (List.mem_filter.mp member).1) taken)
    firstRead.rows contextHolds checkedAdded

/-- An accepted batch was prepared, and what is staged then is what was prepared. -/
theorem exists_isPrepared {session : Session} {edits : List Edit} {world : World}
    (accepted : (World.run (session.validate engine edits) world).1.1.isOk) :
    ∃ keyed groups, IsPrepared engine session.staged edits world keyed
      (World.run (session.validate engine edits) world).1.2.staged groups := by
  obtain ⟨staged, groups, _, _, _, _, prepared, _, ran⟩ := exists_steps_of_accepted accepted
  obtain ⟨keyed, isPrepared⟩ := isPrepared_of_prepare prepared
  rw [ran]
  exact ⟨keyed, groups, isPrepared⟩

/-- A rejected batch stages nothing. -/
theorem staged_of_rejected {session : Session} {edits : List Edit} {world : World}
    (rejected : (World.run (session.validate engine edits) world).1.1.isOk = false) :
    (World.run (session.validate engine edits) world).1.2.staged = session.staged := by
  by_cases closed : session.phase = .closed
  · unfold validate
    rw [if_pos closed]
    rfl
  · obtain ⟨journal, same⟩ := run_validate engine closed edits world
    rw [same, run_vet] at rejected ⊢
    rcases prepared : (prepare engine session.staged edits).outcome world with ⟨answer, later⟩
    rw [prepared] at rejected
    cases answer with
    | error rejection => rfl
    | ok answer =>
        obtain ⟨staged, groups⟩ := answer
        rcases laid : World.run (Group.commitAll engine.setting groups session.document) later with
          ⟨⟨answer, document⟩, last⟩
        simp only [laid] at rejected ⊢
        cases answer with
        | error rejection => rfl
        | ok _ => cases rejected

/-- Whether a session is what batches make of a new one over a store that holds some rows all the time:
the given ones were accepted one after another, others in between were rejected. -/
inductive Accepts (engine : Engine) (rows : ByName Fields) : List (List Edit) → Session → Prop where
  | start (id : String) : Accepts engine rows [] { id }
  | batch {batches : List (List Edit)} {session : Session} (run : Accepts engine rows batches session)
      (edits : List Edit) (world : World) (stored : world.store.rows = rows)
      (accepted : (World.run (session.validate engine edits) world).1.1.isOk) :
      Accepts engine rows (batches ++ [edits]) (World.run (session.validate engine edits) world).1.2
  | rejected {batches : List (List Edit)} {session : Session}
      (run : Accepts engine rows batches session) (edits : List Edit) (world : World)
      (stored : world.store.rows = rows)
      (refused : (World.run (session.validate engine edits) world).1.1.isOk = false) :
      Accepts engine rows batches (World.run (session.validate engine edits) world).1.2

namespace Accepts

variable {rows : ByName Fields} {batches : List (List Edit)} {session : Session}

/-- What holds of a new session and is kept by each edit that is staged holds after every run. -/
theorem invariant (sound : engine.setting.schema.IsSound) (run : Accepts engine rows batches session)
    (Holds : List KeyedEdit → Staged → Prop) (start : Holds [] {})
    (keeps : ∀ (keyed : KeyedEdit) (earlier : List KeyedEdit) (staged later : Staged),
      keyed.IsSound engine.setting.schema → staged.Takes rows keyed later →
        Holds earlier staged → Holds (earlier ++ [keyed]) later) :
    Holds (batches.flatMap engine.setting.schema.inOrder) session.staged := by
  induction run with
  | start id => exact start
  | batch _ edits world stored accepted ih =>
      obtain ⟨keyed, groups, isPrepared⟩ := exists_isPrepared accepted
      subst stored
      rw [List.flatMap_append, List.flatMap_singleton]
      exact isPrepared.invariant sound Holds keeps ih
  | rejected _ edits world stored refused ih => rwa [staged_of_rejected refused]

/-- The staged edits of a row are those of the run on it, in the order in which they were staged. -/
theorem edits_eq (sound : engine.setting.schema.IsSound) (run : Accepts engine rows batches session)
    (table rowKey : String) :
    session.staged.requests.edits table rowKey =
      KeyedEdit.stagedOn table rowKey (batches.flatMap engine.setting.schema.inOrder) := by
  refine run.invariant sound (fun earlier staged =>
    staged.requests.edits table rowKey = KeyedEdit.stagedOn table rowKey earlier) rfl ?_
  intro keyed earlier staged later _ taken recorded
  obtain ⟨world, after, _, added⟩ := taken.added
  rw [Staged.requests_of_addContext added, Staged.edits_record, recorded,
    ← KeyedEdit.stagedOn_append]

end Accepts

end Session

end ConfigVetting
