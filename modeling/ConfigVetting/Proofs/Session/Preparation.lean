import ConfigVetting.Proofs.Session.Bounded
import ConfigVetting.Proofs.Session.Grouping
import ConfigVetting.Proofs.World.Caching

/-! # Preparing a batch only reads

All that is done before the first group of a batch is laid over anything reads from the world and no
more: the checks of single edits, the delete integrity, the loading of dependent data and the
judgement of the processor (`ConfigVetting.Session.isReading_prepare`).
-/

namespace ConfigVetting

open WorldM

variable {setting : Setting}

instance : Std.Refl (World.OnlyRead setting) := ⟨World.OnlyRead.refl⟩

instance : IsTrans World (World.OnlyRead setting) := ⟨fun _ _ _ => World.OnlyRead.trans⟩

/-- Reading is a bound, whatever is rejected. -/
theorem WorldM.bounds_onlyRead (setting : Setting) :
    ReadBounds setting (fun _ => True) (World.OnlyRead setting) where
  expected _ _ := trivial
  counts _ _ := World.OnlyRead.of_eq rfl rfl rfl rfl rfl
  notes _ _ := World.OnlyRead.of_eq rfl rfl rfl rfl rfl
  reads name world := ⟨fun _ _ => trivial, Cache.isReading_read setting name world⟩

private theorem WorldM.IsReading.of_isConfined {α : Type} {call : WorldM α}
    (confined : Stateful.IsConfined (fun _ => True) (World.OnlyRead setting) call) :
    call.IsReading setting :=
  fun world => (confined world).2

namespace DeleteIntegrity

theorem isReading_storedFields (table : TableSchema) (rowKey : String) :
    (storedFields table rowKey).IsReading setting :=
  .of_isConfined (isConfined_storedFields (bounds_onlyRead setting).toBounds table rowKey)

theorem isReading_currentFields (staged : StagedEdits) (table : TableSchema) (rowKey : String) :
    (currentFields staged table rowKey).IsReading setting :=
  .of_isConfined (isConfined_currentFields (bounds_onlyRead setting).toBounds staged table rowKey)

theorem isReading_referrer? (staged : StagedEdits) (table : TableSchema) (field : String)
    (values : List String) : (referrer? setting staged table field values).IsReading setting :=
  .of_isConfined (isConfined_referrer? (bounds_onlyRead setting).toBounds staged table field values)

/-- Looking for a row that refers to some values in one of the leaves that refer to theirs. -/
theorem isReading_checkReferring (staged : StagedEdits) (target : Target) (field : String)
    (values : List String) (referring : String × String) : WorldM.IsReading setting (do
      match setting.schema.table? referring.1 with
      | none => return
      | some table =>
        match ← referrer? setting staged table referring.2 values with
        | none => return
        | some rowKey =>
          throw (((Rejection.ofMessage .leafrefIntegrity
            s!"Entry is still referenced by '{table.storeKey rowKey}' field '{referring.2}'").onRow
              target.table.name target.keyComponents).onField field (Text.joinWith "," values))) := by
  cases known : setting.schema.table? referring.1 with
  | none => exact IsReading.pure ()
  | some table =>
      refine (isReading_referrer? staged table referring.2 values).bind fun found => ?_
      cases found with
      | none => exact IsReading.pure _
      | some rowKey => exact IsReading.throw _

theorem isReading_checkValues (staged : StagedEdits) (target : Target) (field : String)
    (values : List String) : (checkValues setting staged target field values).IsReading setting :=
  .of_isConfined (isConfined_checkValues (bounds_onlyRead setting).toBounds staged target field values)

theorem isReading_targetValues (staged : StagedEdits) (target : Target) (known : Option Fields)
    (field : String) : (targetValues staged target known field).IsReading setting :=
  .of_isConfined (isConfined_targetValues (bounds_onlyRead setting).toBounds staged target known field)

/-- Checking one leaf of a row that is to be deleted. -/
theorem isReading_checkLeaf (staged : StagedEdits) (target : Target) (known : Option Fields)
    (field : String) : WorldM.IsReading setting (do
      let (values, known) ← targetValues staged target known field
      if !values.isEmpty then checkValues setting staged target field values
      return known) := by
  refine (isReading_targetValues staged target known field).bind fun answer => ?_
  exact IsReading.ite ((isReading_checkValues staged target field answer.1).bind fun _ =>
    IsReading.pure _) (IsReading.pure _)

theorem isReading_check (staged : StagedEdits) (target : Target) :
    (check setting staged target).IsReading setting :=
  .of_isConfined (isConfined_check (bounds_onlyRead setting).toBounds staged target)

end DeleteIntegrity

theorem Dependency.isReading_load (source : Source) (name : String) (want : Want) :
    (load source name want).IsReading source.setting :=
  .of_isConfined (isConfined_load (bounds_onlyRead source.setting) name want)

private theorem Engine.isReading_judge (engine : Engine) (subject : Document) (dependent : Option Document)
    (operation : Operation) :
    (engine.judge subject dependent operation).IsReading engine.setting := by
  refine IsReading.bind (fun world => ?_) fun _ => IsReading.except _
  exact World.OnlyRead.of_eq rfl rfl rfl rfl rfl

private theorem Engine.isConfined_judge (engine : Engine) (subject : Document) (dependent : Option Document)
    (operation : Operation) :
    Stateful.IsConfined (fun _ => True) (World.OnlyRead engine.setting)
      (engine.judge subject dependent operation) :=
  fun world => ⟨fun _ _ => trivial, engine.isReading_judge subject dependent operation world⟩

private theorem Group.isReading_judged (engine : Engine) (requests : StagedEdits) (operation : Operation)
    (rows : TableRows) : (judged engine requests operation rows).IsReading engine.setting :=
  .of_isConfined (isConfined_judged (bounds_onlyRead engine.setting)
    (fun _ _ _ => engine.isConfined_judge _) requests operation rows)

namespace Staged

theorem isReading_checkExistence (staged : Staged) (keyed : KeyedEdit) :
    (staged.checkExistence keyed).IsReading setting :=
  .of_isConfined (isConfined_checkExistence (bounds_onlyRead setting).toBounds staged keyed)

theorem isReading_addContext (staged : Staged) (keyed : KeyedEdit) :
    (staged.addContext keyed).IsReading setting :=
  .of_isConfined (isConfined_addContext (bounds_onlyRead setting).toBounds staged keyed)

theorem isReading_addChecked (staged : Staged) (keyed : KeyedEdit) :
    (addChecked setting staged keyed).IsReading setting :=
  .of_isConfined (isConfined_addChecked (bounds_onlyRead setting).toBounds staged keyed)

end Staged

namespace Session

/-- Preparing a batch only reads. -/
theorem isReading_prepare (engine : Engine) (staged : Staged) (edits : List Edit) :
    (prepare engine staged edits).IsReading engine.setting :=
  .of_isConfined (isConfined_prepare (bounds_onlyRead engine.setting)
    (fun _ _ _ => engine.isConfined_judge _) staged edits)

/-- What was done to prepare a batch: its edits had their keys resolved and were staged, those that
are context only before the others, and the groups of the others were judged. -/
structure IsPrepared (engine : Engine) (staged : Staged) (edits : List Edit) (world : World)
    (keyed : List KeyedEdit) (prepared : Staged) (groups : List Group) : Prop where
  resolved : List.Forall₂ (fun edit keyed => engine.setting.schema.keyed edit = .ok keyed)
    edits keyed
  recorded : ∃ context first later,
    ((keyed.filter fun keyed => !keyed.edit.validateNow).foldlM Staged.addContext staged).outcome
      world = (.ok context, first) ∧
    ((keyed.filter fun keyed => keyed.edit.validateNow).foldlM
      (Staged.addChecked engine.setting) context).outcome first = (.ok prepared, later)
  judged : List.Forall₂ (fun rows group => ∃ before, world.OnlyRead engine.setting before ∧
      Group.IsJudged engine prepared.requests rows.1 rows.2 before group)
    (Group.byOperation (keyed.filter fun keyed => keyed.edit.validateNow)) groups

/-- An accepted preparation. -/
theorem isPrepared_of_prepare {engine : Engine} {staged prepared : Staged} {edits : List Edit}
    {groups : List Group} {world later : World}
    (accepted : (prepare engine staged edits).outcome world = (.ok (prepared, groups), later)) :
    ∃ keyed, IsPrepared engine staged edits world keyed prepared groups := by
  obtain ⟨keyed, _, resolving, rest⟩ := outcome_bind_eq_ok_iff.mp accepted
  obtain ⟨resolved, same⟩ := outcome_except_eq_ok_iff.mp resolving
  rw [same, List.partition_eq_filter_filter] at rest
  obtain ⟨context, first, contextAdded, rest⟩ := outcome_bind_eq_ok_iff.mp rest
  obtain ⟨added, second, checkedAdded, rest⟩ := outcome_bind_eq_ok_iff.mp rest
  obtain ⟨judged, third, judging, answered⟩ := outcome_bind_eq_ok_iff.mp rest
  cases answered
  have contextRead : world.OnlyRead engine.setting first :=
    (IsReading.foldlM Staged.isReading_addContext _ _).onlyRead contextAdded
  have checkedRead : first.OnlyRead engine.setting second :=
    (IsReading.foldlM Staged.isReading_addChecked _ _).onlyRead checkedAdded
  have judgements := IsReading.forall₂_of_mapM
    (fun _ => Group.isReading_judged engine prepared.requests _ _) judging
  refine ⟨keyed, Except.mapM_eq_ok_iff.mp resolved, ⟨context, first, second, contextAdded,
    checkedAdded⟩, judgements.imp fun rows group given => ?_⟩
  obtain ⟨before, after, read, accepted⟩ := given
  exact ⟨before, (contextRead.trans checkedRead).trans read, Group.isJudged_of_judged accepted⟩

/-- The edits of a prepared batch are sound. -/
theorem IsPrepared.isSound_of_mem {engine : Engine} (sound : engine.setting.schema.IsSound)
    {staged prepared : Staged} {edits : List Edit} {world : World} {keyed : List KeyedEdit}
    {groups : List Group} (isPrepared : IsPrepared engine staged edits world keyed prepared groups)
    {one : KeyedEdit} (member : one ∈ keyed) :
    one.IsSound engine.setting.schema ∧ one.edit ∈ edits := by
  obtain ⟨edit, given, found⟩ := Except.exists_of_mem_right isPrepared.resolved member
  obtain ⟨isSound, same⟩ := Schema.isSound_of_keyed sound found
  exact ⟨isSound, same ▸ given⟩

end Session

end ConfigVetting
