import ConfigVetting.Proofs.Schema.References
import ConfigVetting.Proofs.Session.Preparation
import ConfigVetting.Proofs.Staging.Stepwise
import ConfigVetting.Proofs.World.Passing
import ConfigVetting.Proofs.World.StoredRows

/-! # What a delete is checked for

A row may be deleted exactly if no row of the session's view has one of its values in a leaf that refers
to the leaf of the value, by the values that the check reads from rows
(`ConfigVetting.DeleteIntegrity.passes_check`). It reads single values of keys as lists, so a row that may
be deleted is only known not to be referred to by values that are their own only member
(`ConfigVetting.DeleteIntegrity.not_says_of_check`).
-/

namespace ConfigVetting

/-- The fields of a row as the session sees them. A row that is not there has none but those that its
edits set. -/
def StagedEdits.fieldsSeen (staged : StagedEdits) (rows : ByName Fields) (table : TableSchema)
    (rowKey : String) : Fields :=
  match staged.state? table.name rowKey with
  | some (.overlay patch) => patch.apply (rows[table.storeKey rowKey]?.getD ∅)
  | _ => (staged.view rows table rowKey).getD ∅

namespace DeleteIntegrity

open WorldM

variable {setting : Setting} {staged : StagedEdits} {world : World} {table : TableSchema}
  {field : String} {values : List String}

/-- Two lists of values meet if they have one in common. -/
theorem meet_iff {wanted : List String} :
    meet values wanted = true ↔ ∃ value ∈ values, value ∈ wanted := by
  simp only [meet, List.any_eq_true, List.contains_iff_mem]

/-- Whether a row of the session's view has one of some values in a leaf. -/
def HasReferrer (staged : StagedEdits) (rows : ByName Fields) (table : TableSchema) (field : String)
    (values : List String) : Prop :=
  ∃ rowKey fields, staged.view rows table rowKey = some fields ∧
    meet (rowValues table field rowKey fields) values = true

/-- Whether a stored row that the staged edits do not decide has one of some values in a leaf, as they
leave it. -/
def HasStoredReferrer (staged : StagedEdits) (rows : ByName Fields) (table : TableSchema)
    (field : String) (values : List String) : Prop :=
  ∃ rowKey stored, rows[table.storeKey rowKey]? = some stored ∧
    isDecided staged table.name rowKey = false ∧
    meet (rowValues table field rowKey (patched staged table.name rowKey stored)) values = true

private theorem passes_storedFields (table : TableSchema) (rowKey : String) :
    Passes setting world (storedFields table rowKey) True
      (· = world.store.rows[table.storeKey rowKey]?.getD ∅) := by
  refine (Passes.askStore (Store.isRead_getRows _) (Store.isServed_getRows _)).andThen
    (IsReading.askStore (Store.isRead_getRows _)) fun rows given => Passes.pure trivial ?_
  rw [given]
  rfl

/-- The fields that are read for a row are those that the session sees. -/
theorem passes_currentFields (staged : StagedEdits) (table : TableSchema) (rowKey : String) :
    Passes setting world (currentFields staged table rowKey) True
      (· = staged.fieldsSeen world.store.rows table rowKey) := by
  unfold currentFields StagedEdits.fieldsSeen StagedEdits.view StagedEdits.rowAfter
  cases staged.state? table.name rowKey with
  | none => exact passes_storedFields table rowKey
  | some state =>
      cases state with
      | present fields => exact Passes.pure trivial rfl
      | deleted => exact Passes.pure trivial rfl
      | overlay patch =>
          refine (passes_storedFields table rowKey).andThen (isReading_storedFields table rowKey)
            fun stored given => Passes.pure trivial ?_
          rw [given]

/-- The rows that the store is asked for are the stored ones that the staged edits do not decide. -/
theorem mem_candidates_iff {rows : ByName Fields} {rowKey : String} :
    rowKey ∈ ((Store.keysFrom table.storeStart rows.keys).filterMap table.rowKey?).filter
        (fun rowKey => !isDecided staged table.name rowKey) ↔
      (∃ stored, rows[table.storeKey rowKey]? = some stored) ∧
        isDecided staged table.name rowKey = false := by
  rw [List.mem_filter, List.mem_filterMap, Bool.not_eq_true', ← Option.isSome_iff_exists]
  refine and_congr_left fun _ => ⟨?_, fun stored => ⟨table.storeKey rowKey, ?_, ?_⟩⟩
  · rintro ⟨key, listed, own⟩
    rw [Store.mem_keysFrom_iff (Store.ordered_keys rows), Std.ExtTreeMap.mem_keys,
      TableSchema.rowKey?_eq_some_iff.mp own, Std.ExtTreeMap.mem_iff_isSome_getElem?] at listed
    exact listed.1
  · rw [Store.mem_keysFrom_iff (Store.ordered_keys rows), Std.ExtTreeMap.mem_keys,
      Std.ExtTreeMap.mem_iff_isSome_getElem?]
    exact ⟨stored, table.startsWith_storeKey rowKey⟩
  · exact TableSchema.rowKey?_eq_some_iff.mpr rfl

/-- A stored row is found exactly if there is one that refers. -/
theorem passes_storedReferrer? (staged : StagedEdits) (table : TableSchema) (field : String)
    (values : List String) :
    Passes setting world (storedReferrer? setting staged table field values) True fun found =>
      found.isSome = true ↔ HasStoredReferrer staged world.store.rows table field values := by
  refine (Passes.askStore (Store.isRead_keys _) (Store.isServed_keys _)).andThen
    (IsReading.askStore (Store.isRead_keys _)) fun keys given => ?_
  subst given
  have members : ∀ rowKey : String, rowKey ∈ ((Store.keysFrom table.storeStart
      world.store.rows.keys).filterMap table.rowKey?).filter
        (fun rowKey => !isDecided staged table.name rowKey) ↔ _ := fun rowKey => mem_candidates_iff
  generalize ((Store.keysFrom table.storeStart world.store.rows.keys).filterMap table.rowKey?).filter
    (fun rowKey => !isDecided staged table.name rowKey) = candidates at members ⊢
  unfold HasStoredReferrer rowValues
  cases placed : keyPosition? table field with
  | some position =>
      refine Passes.pure trivial ?_
      rw [List.find?_isSome]
      constructor
      · rintro ⟨rowKey, listed, own⟩
        obtain ⟨⟨stored, held⟩, undecided⟩ := (members rowKey).mp listed
        exact ⟨rowKey, stored, held, undecided, own⟩
      · rintro ⟨rowKey, stored, held, undecided, own⟩
        exact ⟨rowKey, (members rowKey).mpr ⟨⟨stored, held⟩, undecided⟩, own⟩
  | none =>
      refine (Passes.askStore (Store.isRead_fetch _ _) (Store.isServed_fetch _ _)).andThen
        (IsReading.askStore (Store.isRead_fetch _ _)) fun rows given => Passes.pure trivial ?_
      subst given
      rw [Option.isSome_map, List.map_map, ← List.map_prod_left_eq_zip, List.find?_isSome]
      constructor
      · rintro ⟨_, listed, own⟩
        obtain ⟨rowKey, candidate, rfl⟩ := List.mem_map.mp listed
        obtain ⟨⟨stored, held⟩, undecided⟩ := (members rowKey).mp candidate
        simp only [Function.comp_apply, held] at own
        exact ⟨rowKey, stored, held, undecided, own⟩
      · rintro ⟨rowKey, stored, held, undecided, own⟩
        refine ⟨_, List.mem_map.mpr ⟨rowKey, (members rowKey).mpr ⟨⟨stored, held⟩, undecided⟩, rfl⟩, ?_⟩
        simp only [Function.comp_apply, held]
        exact own

/-- The rows that refer are those that the session created and stored ones that it does not decide. -/
theorem hasReferrer_iff {rows : ByName Fields} : HasReferrer staged rows table field values ↔
    (∃ rowKey fields, staged.state? table.name rowKey = some (.present fields) ∧
      meet (rowValues table field rowKey fields) values = true) ∨
      HasStoredReferrer staged rows table field values := by
  unfold HasReferrer HasStoredReferrer StagedEdits.view StagedEdits.rowAfter patched isDecided
  constructor
  · rintro ⟨rowKey, fields, seen, own⟩
    cases net : staged.state? table.name rowKey with
    | none =>
        simp only [net] at seen
        exact Or.inr ⟨rowKey, fields, seen, by simp only [net], by simpa only [net] using own⟩
    | some state =>
        simp only [net] at seen
        cases state with
        | present created =>
            cases seen
            exact Or.inl ⟨rowKey, _, net, own⟩
        | deleted => cases seen
        | overlay patch =>
            obtain ⟨stored, held, rfl⟩ := Option.map_eq_some_iff.mp seen
            exact Or.inr ⟨rowKey, stored, held, by simp only [net], by simpa only [net] using own⟩
  · rintro (⟨rowKey, fields, net, own⟩ | ⟨rowKey, stored, held, undecided, own⟩)
    · exact ⟨rowKey, fields, by simp only [net]; rfl, own⟩
    · cases net : staged.state? table.name rowKey with
      | none =>
          simp only [net] at own
          exact ⟨rowKey, stored, by simpa only [net] using held, own⟩
      | some state =>
          simp only [net] at undecided own
          cases state with
          | present created => cases undecided
          | deleted => cases undecided
          | overlay patch =>
              refine ⟨rowKey, patch.apply stored, ?_, own⟩
              simp only [net]
              exact Option.map_eq_some_iff.mpr ⟨stored, held, rfl⟩

private theorem stagedReferrer?_isSome_iff : (stagedReferrer? staged table field values).isSome = true ↔
    ∃ rowKey fields, staged.state? table.name rowKey = some (.present fields) ∧
      meet (rowValues table field rowKey fields) values = true := by
  rw [stagedReferrer?, Option.isSome_map, List.find?_isSome]
  constructor
  · rintro ⟨⟨rowKey, state⟩, listed, own⟩
    cases state with
    | present fields => exact ⟨rowKey, fields, StagedEdits.mem_rows_iff.mp listed, own⟩
    | deleted => cases own
    | overlay patch => cases own
  · rintro ⟨rowKey, fields, net, own⟩
    exact ⟨(rowKey, .present fields), StagedEdits.mem_rows_iff.mpr net, own⟩

/-- A row is found exactly if one of the session's view refers. -/
theorem passes_referrer? (staged : StagedEdits) (table : TableSchema) (field : String)
    (values : List String) :
    Passes setting world (referrer? setting staged table field values) True fun found =>
      found.isSome = true ↔ HasReferrer staged world.store.rows table field values := by
  have created := @stagedReferrer?_isSome_iff staged table field values
  unfold referrer?
  simp only [hasReferrer_iff, ← created]
  cases stagedReferrer? staged table field values with
  | some rowKey => exact Passes.pure trivial (by simp)
  | none => simpa using passes_storedReferrer? staged table field values

/-- Values of a leaf pass exactly if no row of the session's view has one of them in a leaf that refers to
it. -/
theorem passes_checkValues (staged : StagedEdits) (target : Target) (field : String)
    (values : List String) :
    Passes setting world (checkValues setting staged target field values)
      (∀ referring ∈ setting.schema.referrers target.table.name field, ∀ table,
        setting.schema.table? referring.1 = some table →
          ¬ HasReferrer staged world.store.rows table referring.2 values) fun _ => True := by
  refine Passes.forM (isReading_checkReferring staged target field values) ?_
  rintro ⟨name, referring⟩ -
  dsimp only
  cases setting.schema.table? name with
  | none => exact Passes.pure (fun _ missing => by cases missing) trivial
  | some table =>
      refine (passes_referrer? staged table referring values).andThen
        (isReading_referrer? staged table referring values) fun found given => ?_
      simp only [Option.some.injEq, forall_eq', ← given]
      cases found with
      | none => exact Passes.pure (fun refers => by cases refers) trivial
      | some rowKey => exact Passes.throw _ fun free => free rfl

/-- The values that a row which is to be deleted has in a leaf, by its fields. -/
def Target.valuesOf (target : Target) (fields : Fields) (field : String) : List String :=
  match keyPosition? target.table field with
  | some position => (target.keyComponents[position]?.map listMembers).getD []
  | none => fieldValues target.table fields field

/-- The values that are read for a leaf are those that the session sees, if the fields that are already
known are those that it sees. -/
theorem passes_targetValues (staged : StagedEdits) (target : Target) (field : String)
    {known : Option Fields}
    (seen : ∀ fields ∈ known, fields = staged.fieldsSeen world.store.rows target.table target.rowKey) :
    Passes setting world (targetValues staged target known field) True fun answer =>
      answer.1 = target.valuesOf (staged.fieldsSeen world.store.rows target.table target.rowKey) field ∧
      ∀ fields ∈ answer.2, fields = staged.fieldsSeen world.store.rows target.table target.rowKey := by
  unfold targetValues Target.valuesOf
  cases placed : keyPosition? target.table field with
  | some position => exact Passes.pure trivial ⟨rfl, seen⟩
  | none =>
      cases known with
      | some fields =>
          cases seen fields rfl
          exact Passes.pure trivial ⟨rfl, fun _ same => (Option.some.inj same).symm⟩
      | none =>
          refine (passes_currentFields staged target.table target.rowKey).andThen
            (isReading_currentFields staged target.table target.rowKey) fun fields given =>
              Passes.pure trivial ?_
          cases given
          exact ⟨rfl, fun _ same => (Option.some.inj same).symm⟩

private theorem not_hasReferrer_nil {rows : ByName Fields} : ¬ HasReferrer staged rows table field [] := by
  rintro ⟨rowKey, fields, _, own⟩
  obtain ⟨value, _, inside⟩ := meet_iff.mp own
  cases inside

/-- A leaf of a row that is to be deleted passes exactly if no row of the session's view has one of its
values in a leaf that refers to it. -/
theorem passes_checkLeaf (staged : StagedEdits) (target : Target) (known : Option Fields) (field : String)
    (seen : ∀ fields ∈ known, fields = staged.fieldsSeen world.store.rows target.table target.rowKey) :
    Passes setting world (do
        let (values, known) ← targetValues staged target known field
        if !values.isEmpty then checkValues setting staged target field values
        return known)
      (∀ referring ∈ setting.schema.referrers target.table.name field, ∀ table,
        setting.schema.table? referring.1 = some table →
          ¬ HasReferrer staged world.store.rows table referring.2 (target.valuesOf
            (staged.fieldsSeen world.store.rows target.table target.rowKey) field))
      fun known => ∀ fields ∈ known,
        fields = staged.fieldsSeen world.store.rows target.table target.rowKey := by
  refine (passes_targetValues staged target field seen).andThen
    (isReading_targetValues staged target known field) fun answer given => ?_
  obtain ⟨values, read⟩ := answer
  obtain ⟨rfl, seenAfter⟩ := given
  cases target.valuesOf (staged.fieldsSeen world.store.rows target.table target.rowKey) field with
  | nil => exact Passes.pure (fun _ _ _ _ => not_hasReferrer_nil) seenAfter
  | cons value values =>
      exact ((passes_checkValues staged target field (value :: values)).bind
        (isReading_checkValues staged target field (value :: values)) fun _ _ =>
          Passes.pure trivial seenAfter).congr (iff_of_eq (and_true _))

/-- A delete passes exactly if no row of the session's view has a value of the row in a leaf that refers
to the leaf of the value. -/
theorem passes_check (staged : StagedEdits) (target : Target) :
    Passes setting world (check setting staged target)
      (∀ field ∈ setting.schema.referencedLeaves target.table.name,
        ∀ referring ∈ setting.schema.referrers target.table.name field, ∀ table,
          setting.schema.table? referring.1 = some table →
            ¬ HasReferrer staged world.store.rows table referring.2 (target.valuesOf
              (staged.fieldsSeen world.store.rows target.table target.rowKey) field)) fun _ => True := by
  simp only [← Std.ExtTreeSet.mem_toList]
  -- The fields of the row are read at most once, for the first leaf that is no component of its key.
  exact ((Passes.foldlM (isReading_checkLeaf staged target) (passes_checkLeaf staged target)
    fun _ missing => by cases missing).bind (IsReading.foldlM (isReading_checkLeaf staged target) _ _)
      fun _ _ => Passes.pure trivial trivial).congr (iff_of_eq (and_true _))

/-- The values of a target are those of its row. -/
theorem Target.valuesOf_eq {target : Target}
    (split : target.table.splitKey target.rowKey = some target.keyComponents) (fields : Fields)
    (field : String) :
    target.valuesOf fields field = rowValues target.table field target.rowKey fields := by
  unfold valuesOf rowValues
  cases keyPosition? target.table field with
  | none => rfl
  | some position =>
      simp only
      rw [keyValues, split, Option.bind_some]
      cases target.keyComponents[position]? <;> rfl

/-- If a delete passes, no row of the session's view says a value of the key of the deleted row in a
leaf that refers to it, unless the value is read as a list of others. -/
theorem not_says_of_check (sound : setting.schema.IsSound) {later : World} {target : Target}
    (targetKnown : setting.schema.table? target.table.name = some target.table)
    (split : target.table.splitKey target.rowKey = some target.keyComponents)
    (accepted : (check setting staged target).outcome world = (.ok (), later))
    {table : TableSchema} (known : setting.schema.table? table.name = some table) {field : String}
    {leaf : LeafSchema} (declared : table.leaf? field = some leaf) {reference : LeafrefTarget}
    (refers : reference ∈ leaf.targets) (led : reference.table = target.table.name)
    {value : String} (holds : target.table.KeyHolds target.rowKey reference.leaf value)
    (plain : value ∈ listMembers value) {rowKey : String} {fields : Fields}
    (row : staged.view world.store.rows table rowKey = some fields) :
    ¬ table.Says rowKey fields field value := by
  intro said
  have free := ((passes_check staged target).of_accepted accepted).1 reference.leaf
    (led ▸ Schema.mem_referencedLeaves known declared refers) (table.name, field)
    (led ▸ Schema.mem_referrers known declared refers) table known
  refine free ⟨rowKey, fields, row, meet_iff.mpr ⟨value, ?_, ?_⟩⟩
  · exact said.mem_rowValues (sound table.name table known).2 (ne_empty_of_mem_listMembers plain) plain
  · rw [Target.valuesOf_eq split]
    exact (holds.isSaid _).mem_rowValues (sound target.table.name target.table targetKnown).2
      (ne_empty_of_mem_listMembers plain) plain

end DeleteIntegrity

end ConfigVetting
