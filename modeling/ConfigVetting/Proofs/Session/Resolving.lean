import ConfigVetting.Proofs.Session.Escaping
import ConfigVetting.Proofs.Session.Existence

/-! # References through a batch and a run

A value that a session sees after a batch was written by the batch, and then was judged with the rows
that it was written with and the data that they depend on; or it was seen throughout the batch, and then
no edit could delete what it leads to. In both cases it resolves or escapes
(`ConfigVetting.Session.IsPrepared.resolves_or_escapes`). So all values resolve after the batches of a run
as they did in the store, if those do that escape in one of them
(`ConfigVetting.Session.isResolved_iff_isSealed`).
-/

namespace ConfigVetting

open WorldM

namespace Reference

variable {reference : Reference} {schema : Schema} {staged : StagedEdits} {rows : ByName Fields}

/-- Whether fields show the value where those of the row do: in a leaf directly below a list instance, or
else in an entry. -/
def Shows (reference : Reference) (fields : Fields) : Prop :=
  reference.table.Says reference.rowKey reference.fields reference.field reference.value ∧
      reference.table.Says reference.rowKey fields reference.field reference.value ∨
    ¬reference.table.Says reference.rowKey reference.fields reference.field reference.value ∧
      reference.table.Enters reference.rowKey fields reference.field reference.value

private theorem IsSeen.shows (seen : reference.IsSeen schema staged rows) :
    reference.Shows reference.fields := by
  by_cases said : reference.table.Says reference.rowKey reference.fields reference.field
      reference.value
  · exact Or.inl ⟨said, said⟩
  · exact Or.inr ⟨said, seen.shown.resolve_left said⟩

/-- The value stands in the key of the row, or is owed to one of its fields. -/
theorem IsSeen.keyHolds_or_isOwedToField (seen : reference.IsSeen schema staged rows) :
    reference.table.KeyHolds reference.rowKey reference.field reference.value ∨
      TableSchema.IsOwedToField reference.Shows reference.fields := by
  rcases seen.shows with ⟨said, _⟩ | ⟨unsaid, entered⟩
  · refine said.keyHolds_or_isOwedToField.imp_right fun owed => ?_
    obtain ⟨name, text, real, held, others⟩ := owed
    exact ⟨name, text, real, held, fun fields same => Or.inl ⟨said, others fields same⟩⟩
  · obtain ⟨name, text, real, held, others⟩ := entered.isOwedToField
    exact Or.inr ⟨name, text, real, held, fun fields same => Or.inr ⟨unsaid, others fields same⟩⟩

private theorem shows_of_keyHolds
    (holds : reference.table.KeyHolds reference.rowKey reference.field reference.value)
    (fields : Fields) : reference.Shows fields :=
  Or.inl ⟨holds.isSaid _, holds.isSaid _⟩

private theorem resolves_of_sees {target : LeafrefTarget} (refers : target ∈ reference.leaf.targets)
    {table : TableSchema} (known : schema.table? table.name = some table)
    (named : table.name = target.table) (sees : staged.Sees rows table target.leaf reference.value) :
    reference.Resolves schema staged rows :=
  ⟨target, refers, table, named ▸ known, sees⟩

end Reference

/-- What is known of a world in a run that started in another one, between batches or while one is
prepared: the store is the same, no table was registered, and the cached tables are covered by the live
rows if they were as stored. -/
structure World.IsGuarded (setting : Setting) (start : World) (staged : StagedEdits) (world : World) :
    Prop where
  keeps : start.Keeps world
  covered : start.cache.IsAsStored setting start.store.rows →
    world.cache.IsCovered setting.schema (staged.IsLive start.store.rows)

namespace World.IsGuarded

variable {setting : Setting} {start world later : World} {staged more : StagedEdits}

private theorem onlyRead (guarded : IsGuarded setting start staged world)
    (read : world.OnlyRead setting later) : IsGuarded setting start staged later where
  keeps := guarded.keeps.trans (.of_onlyRead read)
  covered asStored := (guarded.covered asStored).onlyRead read fun _ _ stored =>
    Or.inl (guarded.keeps.rows ▸ stored)

private theorem atTime (guarded : IsGuarded setting start staged world) (time : Int) :
    IsGuarded setting start staged { world with clock := time } :=
  ⟨⟨guarded.keeps.rows, guarded.keeps.registered⟩, guarded.covered⟩

/-- More staged edits leave live what is so. -/
theorem grow (guarded : IsGuarded setting start staged world)
    (grown : ∀ table rowKey, staged.edits table rowKey ⊆ more.edits table rowKey) :
    IsGuarded setting start more world where
  keeps := guarded.keeps
  covered asStored := (guarded.covered asStored).mono fun _ _ live =>
    live.imp_right fun ⟨edit, member, creates⟩ => ⟨edit, grown _ _ member, creates⟩

end World.IsGuarded

namespace Session

variable {engine : Engine} {start world : World} {staged prepared : Staged} {edits : List Edit}
  {keyed : List KeyedEdit} {groups : List Group} {reference : Reference}

/-- The view of a row after a batch whose edits are all checked. -/
theorem IsPrepared.edits_eq_of_checked
    (isPrepared : IsPrepared engine staged edits world keyed prepared groups)
    (checked : ∀ one ∈ keyed, one.edit.validateNow = true) (table rowKey : String) :
    prepared.requests.edits table rowKey =
      staged.requests.edits table rowKey ++ KeyedEdit.stagedOn table rowKey keyed := by
  rw [isPrepared.edits_eq, List.filter_eq_nil_iff.mpr fun one member => by simp [checked one member],
    List.filter_eq_self.mpr checked]
  rfl

/-- A written value that the subject of a group holds in a component of a key resolves, or the row of that
key is removed again. -/
theorem IsPrepared.resolves_or_escapes_of_subject (sound : engine.setting.schema.IsSound)
    (isPrepared : IsPrepared engine staged edits world keyed prepared groups)
    (written : reference.IsWritten keyed) {operation : Operation}
    (writes : operation = .create ∨ operation = .update) {subject : Document}
    (translated : Document.ofRows engine.setting.schema (Group.rowsOf operation keyed) = .ok subject)
    {target : LeafrefTarget} (refers : target ∈ reference.leaf.targets) {table : TableSchema}
    (known : engine.setting.schema.table? table.name = some table)
    (named : table.name = target.table) (isKey : table.isKey target.leaf = true)
    (held : subject.trees.Holds table.name target.leaf reference.value) :
    reference.Resolves engine.setting.schema prepared.requests start.store.rows ∨
      reference.Escapes engine.setting start keyed prepared.requests := by
  obtain ⟨rowKey, _, row, said⟩ := Document.exists_of_holds_ofRows sound translated known held
  have holds := said.keyHolds isKey
  cases there : prepared.requests.view start.store.rows table rowKey with
  | some _ =>
      exact Or.inl (Reference.resolves_of_sees refers known named
        ⟨rowKey, by rw [there]; rfl, holds⟩)
  | none =>
      rw [Group.getElem?_rowsOf] at row
      obtain ⟨one, member⟩ := Group.exists_of_gathered row
      obtain ⟨inBatch, operated, ofTable, rfl⟩ := Group.mem_editsOf_iff.mp member
      cases Schema.eq_of_name_eq (isPrepared.isSound_of_mem sound inBatch).1.known known ofTable
      exact Or.inr (.removed written inBatch (operated ▸ writes) ⟨target, refers, named, holds⟩
        there)

/-- A written value that the data on which a subject depends holds in a component of a key resolves,
unless the cache was wrong about it. -/
theorem resolves_or_escapes_of_dependent (sound : engine.setting.schema.IsSound)
    (guarded : World.IsGuarded engine.setting start prepared.requests world)
    (written : reference.IsWritten keyed) {target : LeafrefTarget}
    (refers : target ∈ reference.leaf.targets) {table : TableSchema}
    (known : engine.setting.schema.table? table.name = some table)
    (named : table.name = target.table) (isKey : table.isKey target.leaf = true) {σ : Type}
    {subject : Forest σ} {dependent : Document} {later : World}
    (loaded : (Dependency.ofSubject { setting := engine.setting, staged := prepared.requests }
      subject).outcome world = (.ok dependent, later))
    (held : dependent.trees.Holds table.name target.leaf reference.value) :
    reference.Resolves engine.setting.schema prepared.requests start.store.rows ∨
      reference.Escapes engine.setting start keyed prepared.requests := by
  by_cases asStored : start.cache.IsAsStored engine.setting start.store.rows
  swap
  · exact Or.inr (.outdated written asStored)
  by_cases joins : table.name ∈ start.cache.entries → table.JoinsPlainly
  swap
  · rw [Classical.not_imp] at joins
    exact Or.inr (.overlapping written refers (named ▸ known) joins.1 joins.2)
  have covered := guarded.covered asStored
  refine Or.inl (Reference.resolves_of_sees refers known named ?_)
  rw [← guarded.keeps.rows] at covered ⊢
  -- The source is given, for the session's edits do not determine it.
  exact @Dependency.sees_of_ofSubject ⟨engine.setting, prepared.requests, true, _⟩ _ _ _ _ _ _ _ _
    sound covered loaded known
    (fun registered => joins (guarded.keeps.registered _ registered)) isKey held

/-- A value that the batch wrote resolves, or escapes. -/
theorem IsPrepared.resolves_or_escapes_of_written (sound : engine.setting.schema.IsSound)
    (processor : engine.processor = .ofSchema engine.setting.schema)
    (isPrepared : IsPrepared engine staged edits world keyed prepared groups)
    (checked : ∀ one ∈ keyed, one.edit.validateNow = true)
    (guarded : World.IsGuarded engine.setting start prepared.requests world)
    (seen : reference.IsSeen engine.setting.schema prepared.requests start.store.rows)
    {operation : Operation} (writes : operation = .create ∨ operation = .update) {fields : Fields}
    (whole : Group.gathered none
      (Group.editsOf operation reference.table.name reference.rowKey keyed) = some fields)
    (shown : reference.Shows fields) :
    reference.Resolves engine.setting.schema prepared.requests start.store.rows ∨
      reference.Escapes engine.setting start keyed prepared.requests := by
  obtain ⟨own, member⟩ := Group.exists_of_gathered whole
  obtain ⟨inBatch, operated, ofTable, ofRow⟩ := Group.mem_editsOf_iff.mp member
  have written : reference.IsWritten keyed := ⟨own, inBatch, operated ▸ writes, ofTable, ofRow⟩
  by_cases judgeable : reference.table.Says reference.rowKey fields reference.field
      reference.value ∨
    (∃ nameLeaf, reference.table.mapLeaves = some (nameLeaf, reference.field)) ∧
      reference.table.Enters reference.rowKey fields reference.field reference.value
  swap
  · rcases shown with ⟨_, said⟩ | ⟨unsaid, entered⟩
    · exact absurd (Or.inl said) judgeable
    · exact Or.inr (.unjudged written unsaid fun nameLeaf mapped =>
        judgeable (Or.inr ⟨⟨nameLeaf, mapped⟩, entered⟩))
  have listed : (operation, Group.rowsOf operation keyed) ∈
      Group.byOperation (keyed.filter fun keyed => keyed.edit.validateNow) := by
    rw [List.filter_eq_self.mpr checked]
    exact Group.mem_byOperation_iff.mpr ⟨⟨own, inBatch, operated⟩, rfl⟩
  obtain ⟨group, _, before, read, judged⟩ := Except.exists_of_mem_left isPrepared.judged listed
  have row : ((Group.rowsOf operation keyed).keyed reference.table.name)[reference.rowKey]? =
      some fields := (Group.getElem?_rowsOf _ _ _ _).trans whole
  obtain ⟨target, refers, held⟩ := judged.exists_target processor writes seen.known row seen.declared
    seen.refers.1 seen.filled judgeable
  obtain ⟨table, known, isKey⟩ := seen.refers.2 target refers
  have named : table.name = target.table := (sound target.table table known).1
  rw [← named] at held known
  rcases held with inSubject | ⟨dependent, later, loaded, inDependent⟩
  · exact isPrepared.resolves_or_escapes_of_subject sound written writes judged.translated refers
      known named isKey inSubject
  · exact resolves_or_escapes_of_dependent sound (guarded.onlyRead read) written refers known named
      isKey loaded inDependent

/-- A row that an edit of a batch removes could be deleted as the rows were after the edits before it. -/
theorem IsPrepared.exists_deletable {front back : List KeyedEdit} {one : KeyedEdit}
    (isPrepared : IsPrepared engine staged edits world (front ++ one :: back) prepared groups)
    (checked : ∀ other ∈ front ++ one :: back, other.edit.validateNow = true)
    (removes : one.removesRow = true) :
    ∃ (between : Staged) (middle after : World), world.OnlyRead engine.setting middle ∧
      (∀ table rowKey, between.requests.edits table rowKey =
        staged.requests.edits table rowKey ++ KeyedEdit.stagedOn table rowKey front) ∧
      (DeleteIntegrity.check engine.setting between.requests
        ⟨one.table, one.rowKey, one.keyComponents⟩).outcome middle = (.ok (), after) := by
  obtain ⟨context, first, last, contextAdded, checkedAdded⟩ := isPrepared.recorded
  rw [List.filter_eq_nil_iff.mpr fun one member => by simp [checked one member]] at contextAdded
  cases contextAdded
  rw [List.filter_eq_self.mpr checked] at checkedAdded
  obtain ⟨between, middle, read, recorded, integrity⟩ := Staged.exists_of_addChecked checkedAdded
  obtain ⟨after, accepted⟩ := integrity removes
  exact ⟨between, middle, after, read, recorded, accepted⟩

/-- A value that is seen throughout a batch resolves after it if it did before, or escapes. -/
theorem IsPrepared.resolves_or_escapes_of_kept (sound : engine.setting.schema.IsSound)
    (isPrepared : IsPrepared engine staged edits world keyed prepared groups)
    (checked : ∀ one ∈ keyed, one.edit.validateNow = true)
    (rows : world.store.rows = start.store.rows)
    (resolved : staged.requests.IsResolved engine.setting.schema start.store.rows)
    (seen : reference.IsSeen engine.setting.schema prepared.requests start.store.rows)
    (kept : ∀ front, front <+: keyed → ∃ fields,
      StagedEdits.rowBy (staged.requests.edits reference.table.name reference.rowKey ++
        KeyedEdit.stagedOn reference.table.name reference.rowKey front)
          start.store.rows[reference.table.storeKey reference.rowKey]? = some fields ∧
      reference.Shows fields) :
    reference.Resolves engine.setting.schema prepared.requests start.store.rows ∨
      reference.Escapes engine.setting start keyed prepared.requests := by
  obtain ⟨fields, row, shown⟩ := kept [] (List.nil_prefix)
  rw [KeyedEdit.stagedOn, List.filter_nil, List.map_nil, List.append_nil] at row
  obtain ⟨target, refers, table, known, rowKey, there, holds⟩ :=
    resolved { reference with fields } {
      known := seen.known
      row
      declared := seen.declared
      refers := seen.refers
      filled := seen.filled
      shown := shown.imp And.right And.right }
  have named : table.name = target.table := (sound target.table table known).1
  cases after : prepared.requests.view start.store.rows table rowKey with
  | some _ => exact Or.inl ⟨target, refers, table, known, rowKey, by rw [after]; rfl, holds⟩
  | none =>
      right
      have gone : StagedEdits.rowBy (staged.requests.edits table.name rowKey ++
          KeyedEdit.stagedOn table.name rowKey keyed) start.store.rows[table.storeKey rowKey]? =
            none := by
        rw [← isPrepared.edits_eq_of_checked checked]
        exact after
      obtain ⟨front, one, back, rfl, removes, ofTable, rfl⟩ := KeyedEdit.exists_removing there gone
      have oneSound := (isPrepared.isSound_of_mem sound
        (List.mem_append_right front List.mem_cons_self)).1
      cases Schema.eq_of_name_eq oneSound.known (named ▸ known) ofTable
      by_cases readable : reference.table.Says reference.rowKey reference.fields reference.field
          reference.value ∧ reference.value ∈ listMembers reference.value
      swap
      · exact .unread (List.mem_append_right front List.mem_cons_self) removes
          ⟨target, refers, named, holds⟩ (not_and_or.mp readable)
      obtain ⟨said, plain⟩ := readable
      obtain ⟨between, middle, _, read, recorded, accepted⟩ := isPrepared.exists_deletable checked
        removes
      obtain ⟨before, rowThen, shownThen⟩ := kept front (List.prefix_append front (one :: back))
      have saidThen : reference.table.Says reference.rowKey before reference.field
          reference.value := by
        rcases shownThen with ⟨_, own⟩ | ⟨unsaid, _⟩
        · exact own
        · exact absurd said unsaid
      refine absurd saidThen (DeleteIntegrity.not_says_of_check sound oneSound.known oneSound.split
        accepted seen.known seen.declared refers named.symm holds plain ?_)
      rw [read.rows, rows, ← rowThen, ← recorded]
      rfl

/-- If all values resolve before a batch whose edits are all checked, each that is seen after it resolves or
escapes. -/
theorem IsPrepared.resolves_or_escapes (sound : engine.setting.schema.IsSound)
    (processor : engine.processor = .ofSchema engine.setting.schema)
    (isPrepared : IsPrepared engine staged edits world keyed prepared groups)
    (checked : ∀ edit ∈ edits, edit.IsChecked)
    (guarded : World.IsGuarded engine.setting start staged.requests world)
    (resolved : staged.requests.IsResolved engine.setting.schema start.store.rows)
    (seen : reference.IsSeen engine.setting.schema prepared.requests start.store.rows) :
    reference.Resolves engine.setting.schema prepared.requests start.store.rows ∨
      reference.Escapes engine.setting start keyed prepared.requests := by
  have each : ∀ one ∈ keyed, one.edit.IsChecked := fun one member =>
    checked _ (isPrepared.isSound_of_mem sound member).2
  have now := fun one member => (each one member).1
  have recorded := isPrepared.edits_eq_of_checked now
  have guardedAfter : World.IsGuarded engine.setting start prepared.requests world :=
    guarded.grow fun table rowKey => by
      rw [recorded]
      exact List.subset_append_left _ _
  have row := seen.row
  change StagedEdits.rowBy (prepared.requests.edits _ _) _ = _ at row
  rw [recorded] at row
  have written : ∀ operation fields, (operation = .create ∨ operation = .update) →
      Group.gathered none (Group.editsOf operation reference.table.name reference.rowKey keyed) =
        some fields → reference.Shows fields → _ :=
    fun _ _ writes whole shown => isPrepared.resolves_or_escapes_of_written sound processor now
      guardedAfter seen writes whole shown
  have kept := isPrepared.resolves_or_escapes_of_kept sound now guarded.keeps.rows resolved seen
  rcases Classical.em (reference.table.KeyHolds reference.rowKey reference.field reference.value)
    with holds | unheld
  · rcases KeyedEdit.gathered_or_there (by rw [row]; rfl) with ⟨fields, whole⟩ | throughout
    · exact written .create fields (Or.inl rfl) whole (Reference.shows_of_keyHolds holds fields)
    · refine kept fun front inside => ?_
      obtain ⟨fields, there⟩ := Option.isSome_iff_exists.mp (throughout front inside)
      exact ⟨fields, there, Reference.shows_of_keyHolds holds fields⟩
  · by_cases unmarked : listSpelling placeholder ∉ reference.fields
    swap
    · exact Or.inr (.respelled unheld (Or.inl (not_not.mp unmarked)))
    by_cases regular : ∀ edit ∈ prepared.requests.edits reference.table.name reference.rowKey,
        edit.IsRegular
    swap
    · push Not at regular
      exact Or.inr (.respelled unheld (Or.inr regular))
    rw [recorded] at regular
    have acts := fun one member => (each one member).2
    rcases KeyedEdit.shown_or_kept acts regular row unmarked
        (seen.keyHolds_or_isOwedToField.resolve_left unheld) with
      ⟨operation, fields, writes, whole, shown⟩ | throughout
    · exact written operation fields writes whole shown
    · exact kept throughout

/-- Rows that a batch creates are live in what is staged by it. -/
theorem IsPrepared.isLive_of_created
    (isPrepared : IsPrepared engine staged edits world keyed prepared groups)
    (checked : ∀ one ∈ keyed, one.edit.validateNow = true) {group : Group} (member : group ∈ groups)
    (creates : group.operation = .create) {table : TableSchema} {rowKey : String} {fields : Fields}
    (row : (group.rows.keyed table.name)[rowKey]? = some fields) (rows : ByName Fields) :
    prepared.requests.IsLive rows table rowKey := by
  obtain ⟨⟨operation, gathered⟩, listed, _, _, judged⟩ :=
    Except.exists_of_mem_right isPrepared.judged member
  rw [List.filter_eq_self.mpr checked] at listed
  obtain ⟨_, rfl⟩ := Group.mem_byOperation_iff.mp listed
  rw [judged.gathered, Group.getElem?_rowsOf] at row
  obtain ⟨one, own⟩ := Group.exists_of_gathered row
  obtain ⟨inBatch, operated, ofTable, ofRow⟩ := Group.mem_editsOf_iff.mp own
  refine Or.inr ⟨one.staged, ?_, operated.trans (judged.operated.symm.trans creates)⟩
  rw [isPrepared.edits_eq_of_checked checked]
  refine List.mem_append_right _ (List.mem_map.mpr ⟨one, List.mem_filter.mpr ⟨inBatch, ?_⟩, rfl⟩)
  simp [Group.isOfRow, ofTable, ofRow]

/-- An accepted batch was prepared in a guarded world and leaves one. -/
theorem exists_isPrepared_of_guarded (sound : engine.setting.schema.IsSound) {session : Session}
    (guarded : World.IsGuarded engine.setting start session.staged.requests world)
    (checked : ∀ edit ∈ edits, edit.IsChecked)
    (accepted : (World.run (session.validate engine edits) world).1.1.isOk) :
    ∃ keyed groups, IsPrepared engine session.staged edits world keyed
        (World.run (session.validate engine edits) world).1.2.staged groups ∧
      World.IsGuarded engine.setting start
        (World.run (session.validate engine edits) world).1.2.staged.requests
        (World.run (session.validate engine edits) world).2 := by
  obtain ⟨staged, groups, _, middle, _, _, prepared, laid, ran⟩ := exists_steps_of_accepted accepted
  obtain ⟨keyed, isPrepared⟩ := isPrepared_of_prepare prepared
  have now : ∀ one ∈ keyed, one.edit.validateNow = true := fun one member =>
    (checked _ (isPrepared.isSound_of_mem sound member).2).1
  have guardedAfter : World.IsGuarded engine.setting start staged.requests middle :=
    (guarded.onlyRead ((isReading_prepare engine session.staged edits).onlyRead prepared)).grow
      fun table rowKey => by
        rw [isPrepared.edits_eq_of_checked now]
        exact List.subset_append_left _ _
  obtain ⟨keeps, covers⟩ := Group.isCovered_of_commitAll sound
    (fun group member creates table _ rowKey fields row =>
      isPrepared.isLive_of_created now member creates row start.store.rows) laid
  rw [ran]
  exact ⟨keyed, groups, isPrepared, guardedAfter.keeps.trans ⟨keeps.rows, keeps.registered⟩,
    fun asStored => covers (guardedAfter.covered asStored)⟩

/-- Whether each value that escapes in a batch of a run resolves all the same after it. -/
def IsSealed (engine : Engine) (id : String) (world : World) (batches : List TimedBatch) : Prop :=
  ∀ (earlier : List TimedBatch) (next : TimedBatch) (session : Session) (later : World),
    earlier ++ [next] <+: batches →
      Reaches engine { id } world (earlier ++ [next]) session later → ∀ reference : Reference,
        reference.IsSeen engine.setting.schema session.staged.requests world.store.rows →
          reference.Escapes engine.setting world (engine.setting.schema.resolved next.edits)
            session.staged.requests →
          reference.Resolves engine.setting.schema session.staged.requests world.store.rows

namespace Reaches

variable {id : String} {later : World} {batches : List TimedBatch} {session : Session}

private theorem isGuarded (sound : engine.setting.schema.IsSound)
    (run : Reaches engine { id } world batches session later)
    (checked : ∀ batch ∈ batches, ∀ edit ∈ batch.edits, edit.IsChecked) :
    World.IsGuarded engine.setting world session.staged.requests later := by
  induction run with
  | start =>
      exact ⟨World.Keeps.refl world, fun asStored => asStored.isCovered.mono fun _ _ => Or.inl⟩
  | batch run next accepted ih =>
      have before := ih fun batch member => checked batch (List.mem_append_left _ member)
      obtain ⟨_, _, _, after⟩ := exists_isPrepared_of_guarded sound (before.atTime next.time)
        (checked next (List.mem_append_right _ List.mem_cons_self)) accepted
      exact after

private theorem isResolved_of_isSealed (sound : engine.setting.schema.IsSound)
    (processor : engine.processor = .ofSchema engine.setting.schema)
    (run : Reaches engine { id } world batches session later)
    (checked : ∀ batch ∈ batches, ∀ edit ∈ batch.edits, edit.IsChecked)
    (isSealed : IsSealed engine id world batches)
    (resolved : StagedEdits.IsResolved {} engine.setting.schema world.store.rows) :
    session.staged.requests.IsResolved engine.setting.schema world.store.rows := by
  induction run with
  | start => exact resolved
  | batch run next accepted ih =>
      rename_i batches before between
      have checkedBefore : ∀ batch ∈ batches, ∀ edit ∈ batch.edits, edit.IsChecked :=
        fun batch member => checked batch (List.mem_append_left _ member)
      have checkedNext := checked next (List.mem_append_right _ List.mem_cons_self)
      have resolvedBefore := ih checkedBefore fun earlier batch session later inside =>
        isSealed earlier batch session later (inside.trans (List.prefix_append _ _))
      have guarded := (run.isGuarded sound checkedBefore).atTime next.time
      obtain ⟨keyed, groups, isPrepared, _⟩ :=
        exists_isPrepared_of_guarded sound guarded checkedNext accepted
      intro reference seen
      rcases isPrepared.resolves_or_escapes sound processor checkedNext guarded resolvedBefore
        seen with resolves | escapes
      · exact resolves
      · rw [← Schema.resolved_eq isPrepared.resolved] at escapes
        exact isSealed batches next _ _ (List.prefix_refl _) (run.batch next accepted) reference seen
          escapes

end Reaches

/-- If the values that refer to components of keys resolve in the store, and every edit of the batches of
a run is checked, then they resolve after each of its batches exactly if those of them do that escape in
it. -/
theorem isResolved_iff_isSealed [PatternReader] {modules : List ModuleDecl} {delimiter : String}
    (built : Schema.build modules delimiter = .ok engine.setting.schema)
    (processor : engine.processor = .ofSchema engine.setting.schema) {id : String}
    {batches : List TimedBatch} (checked : ∀ batch ∈ batches, ∀ edit ∈ batch.edits, edit.IsChecked)
    (resolved : StagedEdits.IsResolved {} engine.setting.schema world.store.rows) :
    (∀ (earlier : List TimedBatch) (session : Session) (later : World), earlier <+: batches →
        Reaches engine { id } world earlier session later →
          session.staged.requests.IsResolved engine.setting.schema world.store.rows) ↔
      IsSealed engine id world batches := by
  constructor
  · intro all earlier next session later inside run reference seen _
    exact all _ session later inside run reference seen
  · intro isSealed earlier session later inside run
    refine run.isResolved_of_isSealed (Schema.isSound_of_build built) processor
      (fun batch member => checked batch (inside.subset member))
      (fun before next session later prior => ?_) resolved
    exact isSealed before next session later (prior.trans inside)

/-- A table of ports, and one of members that refer to them. -/
def memberTables : List TableDecl :=
  [{ name := "PORT", keyPattern := "PORT|\x7bname\x7d" },
    { name := "MEMBER", keyPattern := "MEMBER|\x7bid\x7d",
      leaves := [{ name := "port", leafrefs := ["/m:m/PORT/PORT_LIST/name"] }] }]

def memberEngine : Engine :=
  Engine.ofModules [{ name := "m", tables := memberTables }]

private theorem exists_memberTables : ∃ port member leaf,
    memberEngine.setting.schema.table? "PORT" = some port ∧ port.name = "PORT" ∧
      memberEngine.setting.schema.table? "MEMBER" = some member ∧ member.name = "MEMBER" ∧
      member.leaf? "port" = some leaf ∧ leaf.targets = [⟨"PORT", "name"⟩] ∧
      port.isKey "name" ∧ (member.expandKey "r").toOption = some [["r"]] ∧
      "x" ∈ member.textValues "port" "x" "port" := by
  have facts : (memberEngine.setting.schema.table? "PORT").any fun port =>
      (memberEngine.setting.schema.table? "MEMBER").any fun member =>
        (member.leaf? "port").any fun leaf =>
          port.name = "PORT" ∧ member.name = "MEMBER" ∧ leaf.targets = [⟨"PORT", "name"⟩] ∧
            port.isKey "name" ∧ (member.expandKey "r").toOption = some [["r"]] ∧
            "x" ∈ member.textValues "port" "x" "port" := by
    decide +kernel
  obtain ⟨port, portKnown, facts⟩ := (Option.any_eq_true _ _).mp facts
  obtain ⟨member, memberKnown, facts⟩ := (Option.any_eq_true _ _).mp facts
  obtain ⟨leaf, declared, facts⟩ := (Option.any_eq_true _ _).mp facts
  obtain ⟨portNamed, memberNamed, rest⟩ := of_decide_eq_true facts
  exact ⟨port, member, leaf, portKnown, portNamed, memberKnown, memberNamed, declared, rest⟩

/-- Nothing is seen in a world with nothing in it. -/
theorem isResolved_bareWorld (schema : Schema) :
    StagedEdits.IsResolved {} schema bareWorld.store.rows := by
  intro reference seen
  obtain ⟨_, staged, _⟩ := StagedEdits.exists_row_of_view seen.row Std.ExtTreeMap.getElem?_empty
  cases staged

def portMember : Fields :=
  (∅ : Fields).insert "port" "x"

/-- A batch that creates a port, deletes it and creates a member that refers to it. -/
def losePort : TimedBatch where
  time := 0
  edits := [
    { operation := .create, key := "PORT|x" },
    { operation := .delete, key := "PORT|x" },
    { operation := .create, key := "MEMBER|r", fields := portMember }]

/-- A member that one batch creates with its port does not resolve if the batch deletes the port again:
the member is held against all rows that the batch creates, and when the port is deleted nothing refers to
it yet. -/
theorem losePort_not_isResolved :
    ∃ session later, Reaches memberEngine { id := "s" } bareWorld [losePort] session later ∧
      (∀ edit ∈ losePort.edits, edit.IsChecked) ∧
      StagedEdits.IsResolved {} memberEngine.setting.schema bareWorld.store.rows ∧
      ¬session.staged.requests.IsResolved memberEngine.setting.schema bareWorld.store.rows := by
  obtain ⟨port, member, leaf, portKnown, portNamed, memberKnown, memberNamed, declared, targets,
    isKey, expanded, given⟩ := exists_memberTables
  obtain ⟨session, later, run, created, gone⟩ : ∃ session later,
      Reaches memberEngine { id := "s" } bareWorld [losePort] session later ∧
        session.staged.requests.rowAfter "MEMBER" "r" none = some portMember ∧
        ∀ row ∈ session.staged.requests.rows "PORT", row.2.apply none = none :=
    ⟨_, _, .batch .start losePort (by decide +kernel), by decide +kernel, by decide +kernel⟩
  refine ⟨session, later, run, by decide +kernel, isResolved_bareWorld _, fun resolved => ?_⟩
  obtain ⟨target, refers, table, known, rowKey, there, _⟩ := resolved
    { table := member, rowKey := "r", fields := portMember, field := "port", leaf, value := "x" } {
      known := memberNamed.symm ▸ memberKnown
      row := by
        rw [StagedEdits.view, memberNamed]
        exact created
      declared
      refers := ⟨by simp [targets], by simp [targets, portKnown, isKey]⟩
      filled := by simp
      shown := by
        refine Or.inl ⟨[["r"]], ?_, ["r"], List.mem_cons_self,
          TableSchema.mem_leafValues_instanceNode_iff.mpr (Or.inr ⟨"port", "x", ?_, given⟩)⟩
        · cases split : member.expandKey "r" with
          | error rejection => simp [split, Except.toOption] at expanded
          | ok combinations => simpa [split, Except.toOption] using expanded
        · simp [portMember] }
  rw [targets, List.mem_singleton] at refers
  subst refers
  cases portKnown.symm.trans known
  obtain ⟨fields, seen⟩ := Option.isSome_iff_exists.mp there
  obtain ⟨row, staged, _, after⟩ := StagedEdits.exists_row_of_view seen Std.ExtTreeMap.getElem?_empty
  rw [gone row (portNamed ▸ staged)] at after
  cases after

/-- A batch that creates a port and a member that refers to it. -/
def joinPort : TimedBatch where
  time := 0
  edits := [
    { operation := .create, key := "PORT|x" },
    { operation := .create, key := "MEMBER|r", fields := portMember }]

/-- Nothing escapes in a batch that creates a port and a member. -/
theorem isSealed_joinPort : IsSealed memberEngine "s" bareWorld [joinPort] := by
  obtain ⟨session, later, run, live, kept⟩ : ∃ session later,
      Reaches memberEngine { id := "s" } bareWorld [joinPort] session later ∧
        (∀ keyed ∈ memberEngine.setting.schema.resolved joinPort.edits, keyed.removesRow = false ∧
          session.staged.requests.rowAfter keyed.table.name keyed.rowKey none ≠ none) ∧
        ∀ table ∈ memberEngine.setting.schema.tables.toList, table.2.mapLeaves = none ∧
          ∀ row ∈ session.staged.requests.rows table.1,
            (∀ fields ∈ row.2.apply none, listSpelling placeholder ∉ fields) ∧
              ∀ edit ∈ session.staged.requests.edits table.1 row.1, edit.IsRegular :=
    ⟨_, _, .batch .start joinPort (by decide +kernel), by decide +kernel, by decide +kernel⟩
  intro earlier next other after inside otherRun reference seen escapes
  obtain ⟨rest, same⟩ := inside
  obtain ⟨rfl, rfl, _⟩ : earlier = [] ∧ next = joinPort ∧ rest = [] := by
    simpa [List.append_eq_singleton_iff, List.append_assoc] using same
  obtain ⟨rfl, rfl⟩ := otherRun.unique run
  have listed := Std.ExtTreeMap.mem_toList_iff_getElem?_eq_some.mpr seen.known
  obtain ⟨unmapped, rows⟩ := kept _ listed
  cases escapes with
  | removed _ member _ _ gone => exact absurd gone (live _ member).2
  | unread member removes => simp [(live _ member).1] at removes
  | unjudged _ naming =>
      have mapped := (seen.shown.resolve_left naming).isSome_mapLeaves
      rw [unmapped] at mapped
      cases mapped
  | respelled _ irregular =>
      obtain ⟨row, staged, named, own⟩ :=
        StagedEdits.exists_row_of_view seen.row Std.ExtTreeMap.getElem?_empty
      obtain ⟨unmarked, regular⟩ := rows row staged
      rcases irregular with marked | ⟨edit, inRow, irregular⟩
      · exact absurd marked (unmarked reference.fields own)
      · exact absurd (regular edit (named ▸ inRow)) irregular
  | overlapping _ _ _ cached => cases cached
  | outdated _ differs => exact absurd (fun _ _ cached => by cases cached) differs

/-- After a batch that creates a port and a member all values resolve. -/
theorem joinPort_isResolved :
    ∃ session later, Reaches memberEngine { id := "s" } bareWorld [joinPort] session later ∧
      session.staged.requests.IsResolved memberEngine.setting.schema bareWorld.store.rows := by
  have faultless : (Schema.build [{ name := "m", tables := memberTables }]
      Schema.usualDelimiter).isOk := by
    decide +kernel
  obtain ⟨session, later, run⟩ : ∃ session later,
      Reaches memberEngine { id := "s" } bareWorld [joinPort] session later :=
    ⟨_, _, .batch .start joinPort (by decide +kernel)⟩
  refine ⟨session, later, run, (isResolved_iff_isSealed (Schema.build_eq_ofModules faultless) rfl ?_
    (isResolved_bareWorld _)).mpr isSealed_joinPort _ session later (List.prefix_refl _) run⟩
  decide +kernel

end Session

end ConfigVetting
