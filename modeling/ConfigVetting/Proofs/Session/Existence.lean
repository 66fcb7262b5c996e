import ConfigVetting.Proofs.Session.Runs
import ConfigVetting.Proofs.Staging.Stepwise

/-! # Rows taken to be there

An existence check takes a row that has staged edits to be there unless their net effect removes it. That
agrees with the row that the edits make of the stored one, one after another, exactly if the row is stored,
or untouched, or some edit of it creates or removes it (`ConfigVetting.Session.Accepts.isThere_iff`).
A row that is not stored can have other edits only because edits that are context only, and those without
an operation, are not held against the rows: while every edit is checked and acts, the check is right
(`ConfigVetting.Staged.ChangesStored.isThereOver_eq`).
-/

namespace ConfigVetting

/-- Whether the row of an edit is held against what the edit does to it. -/
def Edit.IsChecked (edit : Edit) : Prop :=
  edit.validateNow = true ∧ edit.operation ≠ .none

instance (edit : Edit) : Decidable edit.IsChecked :=
  inferInstanceAs (Decidable (_ ∧ _))

namespace StagedEdits

/-- What is told of a row by the net effect of its edits, or else by its being stored, is so exactly if
the row is stored, or untouched, or made or removed by an edit. -/
theorem isThere_netState_iff (edits : List StagedEdit) (stored : Option Fields) :
    ((netState edits).map RowState.isThere).getD stored.isSome =
        (edits.foldl StagedEdit.applyTo stored).isSome ↔
      stored.isSome ∨ edits = [] ∨ ∃ edit ∈ edits, edit.Settles := by
  have told := tells_netState edits stored
  generalize netState edits = net at told
  rcases net with _ | fields | patch | _
  · cases (show edits = [] from told)
    simp
  · exact iff_of_true told.1.symm (Or.inr (Or.inr told.2))
  · obtain ⟨kept, touched, changes⟩ := told
    rw [kept]
    constructor
    · intro stays
      exact Or.inl stays.symm
    · rintro (there | untouched | ⟨edit, member, settles⟩)
      · exact there.symm
      · exact absurd untouched touched
      · exact absurd settles (changes edit member)
  · exact iff_of_true told.1.symm (Or.inr (Or.inr told.2))

end StagedEdits

namespace Staged

open WorldM

/-- Whether a row is there, as far as the staged edits tell, else as it is stored. -/
def isThereOver (staged : Staged) (rows : ByName Fields) (table : TableSchema) (rowKey : String) :
    Bool :=
  (staged.requests.isThere? table.name rowKey).getD rows[table.storeKey rowKey]?.isSome

private theorem eq_of_isThere {staged : Staged} {table : TableSchema} {rowKey : String} {world after : World}
    {told : Bool} (asked : (staged.isThere table rowKey).outcome world = (.ok told, after)) :
    told = staged.isThereOver world.store.rows table rowKey := by
  unfold isThere at asked
  unfold isThereOver
  cases known : staged.requests.isThere? table.name rowKey with
  | some there =>
      simp only [known] at asked
      cases asked
      rfl
  | none =>
      simp only [known] at asked
      rw [World.eq_of_outcome_askStore (Store.isRead_holds _) asked, Bool.eq_iff_iff,
        decide_eq_true_iff]
      exact Std.ExtTreeMap.mem_iff_isSome_getElem?

private theorem outcome_isThere (staged : Staged) (table : TableSchema) (rowKey : String) {world : World}
    (available : world.store.available = true) :
    ((staged.isThere table rowKey).outcome world).1 =
      .ok (staged.isThereOver world.store.rows table rowKey) := by
  have answered : ∃ told, ((staged.isThere table rowKey).outcome world).1 = .ok told := by
    unfold isThere
    cases staged.requests.isThere? table.name rowKey with
    | some there => exact ⟨there, rfl⟩
    | none =>
        obtain ⟨store, cache, clock, journal, consultations, heard⟩ := world
        obtain ⟨database, rows, _, stats, subscribers, subscriptions⟩ := store
        cases available
        exact ⟨_, rfl⟩
  obtain ⟨told, answered⟩ := answered
  rw [answered, ← eq_of_isThere (Prod.ext answered rfl)]

/-- An edit that passes its existence check creates a row that is taken to be missing, or changes one that
is taken to be there. -/
theorem isThereOver_of_checkExistence {staged : Staged} {keyed : KeyedEdit} {world after : World}
    (checked : (staged.checkExistence keyed).outcome world = (.ok (), after))
    (acts : keyed.edit.operation ≠ .none) :
    staged.isThereOver world.store.rows keyed.table keyed.rowKey = true ↔
      keyed.edit.operation ≠ .create := by
  unfold checkExistence at checked
  rw [if_neg acts] at checked
  obtain ⟨told, middle, asked, judged⟩ := outcome_bind_eq_ok_iff.mp checked
  rw [← eq_of_isThere asked]
  by_cases creates : keyed.edit.operation = .create
  · rw [if_pos creates] at judged
    cases told with
    | true => cases judged
    | false => simp [creates]
  · rw [if_neg creates] at judged
    cases told with
    | true => simp [creates]
    | false => cases judged

/-- Whether the rows that are staged to be changed, and neither made nor removed, are stored. -/
def ChangesStored (schema : Schema) (rows : ByName Fields) (staged : Staged) : Prop :=
  ∀ table, schema.table? table.name = some table → ∀ rowKey,
    staged.requests.edits table.name rowKey ≠ [] →
      (∀ edit ∈ staged.requests.edits table.name rowKey, ¬ edit.Settles) →
        rows[table.storeKey rowKey]?.isSome

/-- Taking a checked edit keeps the rows that are staged to be changed among the stored ones. -/
theorem Takes.changesStored {schema : Schema} {rows : ByName Fields} {staged later : Staged}
    {keyed : KeyedEdit} (sound : keyed.IsSound schema) (checked : keyed.edit.IsChecked)
    (taken : staged.Takes rows keyed later) (before : staged.ChangesStored schema rows) :
    later.ChangesStored schema rows := by
  intro table known rowKey touched changes
  obtain ⟨_, _, _, added⟩ := taken.added
  rw [requests_of_addContext added, edits_record, KeyedEdit.stagedOn_singleton] at touched changes
  by_cases own : keyed.table.name = table.name ∧ keyed.rowKey = rowKey
  · rw [if_pos own] at changes
    cases Schema.eq_of_name_eq sound.known known own.1
    obtain ⟨_, rfl⟩ := own
    by_cases fresh : staged.requests.edits keyed.table.name keyed.rowKey = []
    · -- The first edit of the row was held against the store.
      obtain ⟨world, _, rfl, passed⟩ := taken.checked checked.1
      have keeps : keyed.edit.operation ≠ .create := fun creates =>
        changes keyed.staged (List.mem_append_right _ List.mem_cons_self) (Or.inl creates)
      have there := (isThereOver_of_checkExistence passed checked.2).mpr keeps
      unfold isThereOver StagedEdits.isThere? StagedEdits.state? at there
      rw [fresh] at there
      exact there
    · exact before keyed.table known keyed.rowKey fresh fun edit member =>
        changes edit (List.mem_append_left _ member)
  · rw [if_neg own, List.append_nil] at touched changes
    exact before table known rowKey touched changes

/-- If the rows that are staged to be changed are stored, a row is taken to be there exactly if the staged
edits leave it there. -/
theorem ChangesStored.isThereOver_eq {schema : Schema} {rows : ByName Fields} {staged : Staged}
    (stored : staged.ChangesStored schema rows) {table : TableSchema}
    (known : schema.table? table.name = some table) (rowKey : String) :
    staged.isThereOver rows table rowKey =
      (staged.requests.rowInTurn table.name rowKey rows[table.storeKey rowKey]?).isSome := by
  refine (StagedEdits.isThere_netState_iff _ _).mpr ?_
  by_contra unknown
  rw [not_or, not_or, not_exists] at unknown
  obtain ⟨missing, touched, changes⟩ := unknown
  exact missing (stored table known rowKey touched fun edit member settles =>
    changes edit ⟨member, settles⟩)

end Staged

namespace Session

variable {engine : Engine} {rows : ByName Fields} {batches : List (List Edit)} {session : Session}

namespace Accepts

/-- Whether a row is there is told by its net state, and by the store if it has none. -/
theorem isThereOver_eq (sound : engine.setting.schema.IsSound)
    (run : Accepts engine rows batches session) (table : TableSchema) (rowKey : String) :
    session.staged.isThereOver rows table rowKey =
      ((StagedEdits.netState (KeyedEdit.stagedOn table.name rowKey
        (batches.flatMap engine.setting.schema.inOrder))).map RowState.isThere).getD
          rows[table.storeKey rowKey]?.isSome := by
  rw [← run.edits_eq sound]
  rfl

/-- After every run, an existence check takes a row to be there or not as the edits of the run make it of
the stored one, one after another, exactly if the row is stored, or untouched, or made or removed by one
of its edits. -/
theorem isThere_iff [PatternReader] {modules : List ModuleDecl} {delimiter : String}
    (built : Schema.build modules delimiter = .ok engine.setting.schema)
    (run : Accepts engine rows batches session) (table : TableSchema) (rowKey : String)
    {world : World} (stored : world.store.rows = rows) (available : world.store.available = true) :
    let edits := KeyedEdit.stagedOn table.name rowKey
      (batches.flatMap engine.setting.schema.inOrder)
    ((session.staged.isThere table rowKey).outcome world).1 =
        .ok (edits.foldl StagedEdit.applyTo rows[table.storeKey rowKey]?).isSome ↔
      rows[table.storeKey rowKey]?.isSome ∨ edits = [] ∨ ∃ edit ∈ edits, edit.Settles := by
  intro edits
  rw [Staged.outcome_isThere _ _ _ available, stored, Except.ok.injEq,
    run.isThereOver_eq (Schema.isSound_of_build built)]
  exact StagedEdits.isThere_netState_iff _ _

end Accepts

/-- A world with nothing in it. -/
def bareWorld : World where
  store := { database := 0 }

/-- A batch that only names a row as context of others. -/
def namePort : List Edit :=
  [{ operation := .none, key := "PORT|x" }]

/-- A row that an accepted batch only names is taken to be there, although it is missing. -/
theorem namePort_takenToBeThere :
    ∃ table session, plainEngine.setting.schema.table? "PORT" = some table ∧
      Accepts plainEngine bareWorld.store.rows [namePort] session ∧
      ((session.staged.isThere table "x").outcome bareWorld).1 = .ok true ∧
      session.staged.requests.rowInTurn "PORT" "x" bareWorld.store.rows[table.storeKey "x"]? =
        none := by
  obtain ⟨table, known, named, _⟩ := exists_plainTable
  obtain ⟨session, run, told, missing⟩ : ∃ session,
      Accepts plainEngine bareWorld.store.rows [namePort] session ∧
      session.staged.requests.isThere? "PORT" "x" = some true ∧
      session.staged.requests.rowInTurn "PORT" "x" none = none :=
    ⟨_, .batch (.start "s") namePort bareWorld rfl (by decide +kernel), by decide +kernel,
      by decide +kernel⟩
  refine ⟨table, session, known, run, ?_, missing⟩
  unfold Staged.isThere
  rw [named, told]
  rfl

/-- A batch that creates a row, and one that removes it again. -/
def createThenDelete : List (List Edit) :=
  [[{ operation := .create, key := "PORT|x" }], [{ operation := .delete, key := "PORT|x" }]]

/-- A row that one batch creates and the next one removes is taken to be missing. -/
theorem isThere_of_createThenDelete :
    ∃ table session, Accepts plainEngine bareWorld.store.rows createThenDelete session ∧
      ((session.staged.isThere table "x").outcome bareWorld).1 = .ok false := by
  obtain ⟨table, known, named, _⟩ := exists_plainTable
  have faultless : (Schema.build [{ name := "m", tables := [plainTable] }]
      Schema.usualDelimiter).isOk := by
    decide +kernel
  obtain ⟨session, run⟩ : ∃ session,
      Accepts plainEngine bareWorld.store.rows createThenDelete session :=
    ⟨_, .batch (.batch (.start "s") _ bareWorld rfl (by decide +kernel)) _ bareWorld rfl
      (by decide +kernel)⟩
  have settled : ∃ edit ∈ KeyedEdit.stagedOn "PORT" "x"
      (createThenDelete.flatMap plainEngine.setting.schema.inOrder), edit.Settles := by
    decide +kernel
  have gone : ((KeyedEdit.stagedOn "PORT" "x"
      (createThenDelete.flatMap plainEngine.setting.schema.inOrder)).foldl StagedEdit.applyTo
        none).isSome = false := by
    decide +kernel
  rw [← named] at settled gone
  refine ⟨table, session, run, ?_⟩
  rw [← gone]
  exact (run.isThere_iff (Schema.build_eq_ofModules faultless) table "x" rfl rfl).mpr
    (Or.inr (Or.inr settled))

end Session

end ConfigVetting
