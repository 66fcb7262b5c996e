import ConfigVetting.Proofs.World.Bounds

/-! # Preparing a batch stays in bounds

All that is done before the first group of a batch is laid over anything is put together from requests to
the store that look something up, entries in the journal, reads from the cache and the judgements of the
processor. What all of these keep is kept by the checks of single edits, the delete integrity, the loading
of dependent data, and so by the preparation as a whole
(`ConfigVetting.Session.isConfined_prepare`).
-/

namespace ConfigVetting

open Stateful WorldM

variable {setting : Setting} {allowed : Rejection → Prop} {leads : World → World → Prop}
  [Std.Refl leads] [IsTrans World leads]

namespace DeleteIntegrity

section

variable (bounds : Bounds allowed leads) (staged : StagedEdits)

include bounds

theorem isConfined_storedFields (table : TableSchema) (rowKey : String) :
    IsConfined allowed leads (storedFields table rowKey) :=
  (bounds.askStore (Store.looksUp_getRows _)).bind fun _ _ => .pure _

theorem isConfined_currentFields (table : TableSchema) (rowKey : String) :
    IsConfined allowed leads (currentFields staged table rowKey) := by
  unfold currentFields
  cases staged.state? table.name rowKey with
  | none => exact isConfined_storedFields bounds table rowKey
  | some state =>
      cases state with
      | present fields => exact .pure _
      | deleted => exact .pure _
      | overlay patch => exact (isConfined_storedFields bounds table rowKey).bind fun _ _ => .pure _

private theorem isConfined_storedReferrer? (table : TableSchema) (field : String) (values : List String) :
    IsConfined allowed leads (storedReferrer? setting staged table field values) := by
  refine (bounds.askStore (Store.looksUp_keys _)).bind fun keys _ => ?_
  cases keyPosition? table field with
  | some position => exact .pure _
  | none => exact (bounds.askStore (Store.looksUp_fetch _ _)).bind fun _ _ => .pure _

theorem isConfined_referrer? (table : TableSchema) (field : String) (values : List String) :
    IsConfined allowed leads (referrer? setting staged table field values) := by
  unfold referrer?
  cases stagedReferrer? staged table field values with
  | some rowKey => exact .pure _
  | none => exact isConfined_storedReferrer? bounds staged table field values

/-- Looking for a row that refers to some values in each of the leaves that refer to theirs. -/
theorem isConfined_checkValues (target : Target) (field : String) (values : List String) :
    IsConfined allowed leads (checkValues setting staged target field values) := by
  refine .forM fun (name, referring) _ => ?_
  cases known : setting.schema.table? name with
  | none =>
      simp only [known]
      exact .pure _
  | some table =>
      simp only [known]
      refine (isConfined_referrer? bounds staged table referring values).bind fun found _ => ?_
      cases found with
      | none => exact .pure _
      | some rowKey => exact bounds.throw nofun

theorem isConfined_targetValues (target : Target) (known : Option Fields) (field : String) :
    IsConfined allowed leads (targetValues staged target known field) := by
  unfold targetValues
  cases keyPosition? target.table field with
  | some position => exact .pure _
  | none =>
      cases known with
      | some fields => exact .pure _
      | none =>
          exact (isConfined_currentFields bounds staged target.table target.rowKey).bind fun _ _ => .pure _

theorem isConfined_check (target : Target) : IsConfined allowed leads (check setting staged target) := by
  refine .discard (.foldlM (fun known field => ?_) _ _)
  refine (isConfined_targetValues bounds staged target known field).bind fun answer _ => ?_
  exact .ite (fun _ => (isConfined_checkValues bounds staged target field answer.1).bind fun _ _ => .pure _)
    fun _ => .pure _

end

end DeleteIntegrity

namespace Dependency

/-- If something was fetched for each wanted row key, none is left unresolved. -/
theorem resolve_of_le {table : TableSchema} {wanted : List String} {fetched : List (Option Fields)}
    (all : wanted.length ≤ fetched.length) : resolve table wanted fetched = .ok (wanted.zip fetched) := by
  rw [resolve, List.drop_eq_nil_of_le all]

private theorem meetsExpected_ofFetched (schema : Schema) (table : TableSchema) (states : ByName RowState)
    {wanted : List String} {fetched : List (Option Fields)} (all : wanted.length ≤ fetched.length) :
    MeetsExpected (ofFetched schema table states wanted fetched) := by
  rw [ofFetched, resolve_of_le all]
  exact Document.meetsExpected_ofRows schema _

/-- As much is fetched as was asked for, whatever the size of the batches. -/
theorem length_of_gives_fetch {keys : List String} {batchSize : Nat} {fetched : List (Option Fields)}
    (given : Gives (World.askStore (Store.fetch keys batchSize)) fetched) : fetched.length = keys.length := by
  obtain ⟨world, later, asked⟩ := given
  have same := World.eq_of_outcome_askStore (Store.isRead_fetch keys batchSize)
    (show (World.askStore (Store.fetch keys batchSize)).outcome world = (.ok fetched, later) from asked)
  rw [same, List.length_map]

variable {source : Source} (bounds : ReadBounds source.setting allowed leads)

include bounds

private theorem isConfined_loadRows (table : TableSchema) (keys : Names) (states : ByName RowState) :
    IsConfined allowed leads (loadRows source table keys states) := by
  refine (bounds.askStore (Store.looksUp_fetch _ _)).bind fun fetched given => ?_
  have resolves := bounds.except (meetsExpected_ofFetched source.setting.schema table states
    (Nat.le_of_eq ((length_of_gives_fetch given).trans (List.length_map _)).symm))
  exact .ite (fun _ => (bounds.note _ _).bind fun _ _ => resolves) fun _ => resolves

private theorem isConfined_loadStored (table : TableSchema) :
    IsConfined allowed leads (loadStored source table) :=
  (bounds.askStore (Store.looksUp_keys _)).bind fun _ _ => isConfined_loadRows bounds table _ _

private theorem isConfined_loadWhole (table : TableSchema) :
    IsConfined allowed leads (loadWhole source table) := by
  unfold loadWhole
  refine .ite (fun _ => ?_) fun _ => isConfined_loadStored bounds table
  refine (bounds.reads table.name).bind fun found _ => ?_
  cases found with
  | none => exact isConfined_loadStored bounds table
  | some document =>
      exact bounds.except (document.meetsExpected_changed (.forM fun row _ =>
        Document.meetsExpected_overlayRow source.setting.schema table row.1 row.2))

theorem isConfined_load (name : String) (want : Want) :
    IsConfined allowed leads (load source name want) := by
  refine (bounds.except (source.setting.schema.meetsExpected_knownTable name)).bind fun table _ => ?_
  cases want with
  | whole => exact isConfined_loadWhole bounds table
  | rows keys => exact isConfined_loadRows bounds table keys _

private theorem isConfined_assemble (wants : Wants) : IsConfined allowed leads (assemble source wants) := by
  refine (IsConfined.foldlM (fun document (name, want) => ?_) _ _).bind fun _ _ =>
    (bounds.note _ _).bind fun _ _ => .pure _
  exact (isConfined_load bounds name want).bind fun _ _ => .pure _

private theorem isConfined_ofSubject {σ : Type} (subject : Forest σ) :
    IsConfined allowed leads (ofSubject source subject) := by
  refine (bounds.except (.foldlM (fun _ name _ => ?_) _)).bind fun wants _ => isConfined_assemble bounds wants
  exact (source.setting.schema.meetsExpected_knownTable name).bind fun _ _ => .ok _

end Dependency

namespace Staged

variable (bounds : Bounds allowed leads) (staged : Staged)

include bounds

omit [IsTrans World leads] in
private theorem isConfined_isThere (table : TableSchema) (rowKey : String) :
    IsConfined allowed leads (staged.isThere table rowKey) := by
  unfold isThere
  cases staged.requests.isThere? table.name rowKey with
  | some known => exact .pure _
  | none => exact bounds.askStore (Store.looksUp_holds _)

theorem isConfined_checkExistence (keyed : KeyedEdit) :
    IsConfined allowed leads (staged.checkExistence keyed) := by
  refine .ite (fun _ => .pure _) fun _ => (isConfined_isThere bounds staged _ _).bind fun _ _ => ?_
  exact .ite (fun _ => .ite (fun _ => bounds.throw nofun) fun _ => .pure _) fun _ =>
    .ite (fun _ => bounds.throw nofun) fun _ => .pure _

private theorem isConfined_count (table : TableSchema) : IsConfined allowed leads (staged.count table) := by
  unfold count
  cases staged.counts[table.name]? with
  | some count => exact .pure _
  | none => exact (bounds.askStore (Store.looksUp_keys _)).bind fun _ _ => .pure _

private theorem isConfined_countRow (keyed : KeyedEdit) :
    IsConfined allowed leads (staged.countRow keyed) := by
  have counting := isConfined_count bounds staged keyed.table
  unfold countRow
  cases limited : keyed.table.maxElements with
  | none =>
      simp only [limited]
      exact .pure staged
  | some limit =>
      simp only [limited]
      refine .ite (fun _ => counting.bind fun _ _ => .pure _) fun _ =>
        .ite (fun _ => counting.bind fun _ _ => ?_) fun _ => .pure _
      exact .ite (fun _ => (bounds.throw (by nofun)).bind fun _ _ => .pure _) fun _ => .pure _

theorem isConfined_addContext (keyed : KeyedEdit) : IsConfined allowed leads (staged.addContext keyed) :=
  (isConfined_countRow bounds staged keyed).bind fun _ _ => .pure _

theorem isConfined_addChecked (keyed : KeyedEdit) :
    IsConfined allowed leads (addChecked setting staged keyed) := by
  have adding := isConfined_addContext bounds staged keyed
  exact (isConfined_checkExistence bounds staged keyed).bind fun _ _ =>
    .ite (fun _ => (DeleteIntegrity.isConfined_check bounds _ _).bind fun _ _ => adding) fun _ => adding

end Staged

variable {engine : Engine} (bounds : ReadBounds engine.setting allowed leads)
  (judges : ∀ rows subject, Document.ofRows engine.setting.schema rows = .ok subject →
    ∀ dependent operation, IsConfined allowed leads (engine.judge subject dependent operation))

include bounds judges

theorem Group.isConfined_judged (requests : StagedEdits) (operation : Operation) (rows : TableRows) :
    IsConfined allowed leads (judged engine requests operation rows) := by
  refine (bounds.except (Document.meetsExpected_ofRows _ rows)).bind fun subject given => ?_
  have judging := judges rows subject (gives_except given)
  have loading := Dependency.isConfined_ofSubject
    (show ReadBounds (⟨engine.setting, requests, true, engine.setting.batchSize⟩ : Dependency.Source).setting
      allowed leads from bounds) subject.roots
  refine .ite (fun _ => .ite (fun _ => ?_) fun _ => ?_) fun _ => .pure _
  · exact (IsConfined.pure _).bind fun _ _ => (judging _ operation).bind fun _ _ => .pure _
  · exact loading.bind fun _ _ => (judging _ operation).bind fun _ _ => .pure _

/-- What the steps of a preparation keep is kept by the preparation, if the processor keeps it when it judges
a subject of rows. -/
theorem Session.isConfined_prepare (staged : Staged) (edits : List Edit) :
    IsConfined allowed leads (prepare engine staged edits) :=
  (bounds.except (.mapM fun edit _ => engine.setting.schema.meetsExpected_keyed edit)).bind fun _ _ =>
    (IsConfined.foldlM (Staged.isConfined_addContext bounds.toBounds) _ _).bind fun _ _ =>
      (IsConfined.foldlM (Staged.isConfined_addChecked bounds.toBounds) _ _).bind fun staged _ =>
        (IsConfined.mapM (fun _ => Group.isConfined_judged bounds judges staged.requests _ _) _).bind
          fun _ _ => .pure _

end ConfigVetting
