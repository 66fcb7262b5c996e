import ConfigVetting.Proofs.Schema.RowKeys
import ConfigVetting.Proofs.Staging.Spelling
import ConfigVetting.Proofs.World.Outcome
import ConfigVetting.Session

/-! # Batches regrouped by operation

A batch is judged and laid over documents not edit by edit but operation by operation, with the fields
of all edits of one row and operation together. The row of a group is the union of the fields of its
edits (`ConfigVetting.Group.getElem?_rowsOf`), so what a group says of a row is said by one of them.
-/

namespace ConfigVetting

/-- An engine for the schema of some modules that holds subjects against it. -/
def Engine.ofModules (modules : List ModuleDecl) : Engine where
  setting := { schema := .ofModules modules, database := 0, batchSize := 100 }
  processor := .ofSchema (.ofModules modules)

/-- Whether an edit changes the fields of a row that stays. -/
def Edit.patchesRow (edit : Edit) : Bool :=
  edit.operation = .update || (edit.operation = .delete && !edit.fields.areNone)

/-- What holds of an edit whose key was resolved. -/
structure KeyedEdit.IsSound (schema : Schema) (keyed : KeyedEdit) : Prop where
  owned : schema.splitStoreKey keyed.edit.key = some (keyed.table, keyed.rowKey)
  known : schema.table? keyed.table.name = some keyed.table
  stored : keyed.table.rowKey? keyed.edit.key = some keyed.rowKey
  expands : ∃ combinations, keyed.table.expandKey keyed.rowKey = .ok combinations
  split : keyed.table.splitKey keyed.rowKey = some keyed.keyComponents

/-- An edit whose key is resolved is sound, and stays the edit that it is. -/
theorem Schema.isSound_of_keyed {schema : Schema} (sound : schema.IsSound) {edit : Edit}
    {keyed : KeyedEdit} (resolved : schema.keyed edit = .ok keyed) :
    keyed.IsSound schema ∧ keyed.edit = edit := by
  unfold Schema.keyed at resolved
  cases owned : schema.splitStoreKey edit.key with
  | none =>
      simp only [owned] at resolved
      cases resolved
  | some found =>
      obtain ⟨table, rowKey⟩ := found
      simp only [owned] at resolved
      obtain ⟨_, discarded, rest⟩ := Except.bind_eq_ok_iff.mp resolved
      obtain ⟨components, split, made⟩ := Except.bind_eq_ok_iff.mp rest
      cases made
      obtain ⟨known, stored⟩ := splitStoreKey_sound sound owned
      obtain ⟨combinations, expanded, _⟩ := Except.map_eq_ok_iff.mp discarded
      exact ⟨⟨owned, known, stored, ⟨combinations, expanded⟩,
        TableSchema.components_eq_ok_iff.mp split⟩, rfl⟩

namespace Group

/-- Whether an edit is one of a row. -/
def isOfRow (table rowKey : String) (keyed : KeyedEdit) : Bool :=
  keyed.table.name = table && keyed.rowKey = rowKey

/-- Fields with those of some edits added in order, if there are any. -/
def gathered (fields : Option Fields) (edits : List KeyedEdit) : Option Fields :=
  edits.foldl (fun fields keyed => some (fields.getD ∅ ∪ keyed.edit.fields)) fields

/-- A row of a group holds the fields of its edits, later ones before earlier. -/
theorem getElem?_foldl_addRow (edits : List KeyedEdit) (rows : TableRows)
    (table rowKey : String) :
    ((edits.foldl addRow rows).keyed table)[rowKey]? =
      gathered (rows.keyed table)[rowKey]? (edits.filter (isOfRow table rowKey)) := by
  induction edits generalizing rows with
  | nil => rfl
  | cons keyed edits ih =>
      rw [List.foldl_cons, ih, addRow, TableRows.keyed_put]
      by_cases own : isOfRow table rowKey keyed
      · rw [List.filter_cons_of_pos own]
        have same : keyed.table.name = table ∧ keyed.rowKey = rowKey := by
          simpa [isOfRow] using own
        obtain ⟨rfl, rfl⟩ := same
        rw [if_pos ⟨rfl, rfl⟩]
        rfl
      · rw [List.filter_cons_of_neg own]
        have other : ¬ (keyed.table.name = table ∧ keyed.rowKey = rowKey) := by
          simpa [isOfRow] using own
        rw [if_neg other]

/-- A table of a group is that of an edit. -/
theorem exists_of_mem_foldl_addRow {edits : List KeyedEdit} {rows : TableRows} {name : String}
    (member : name ∈ edits.foldl addRow rows) :
    (∃ keyed ∈ edits, keyed.table.name = name) ∨ name ∈ rows := by
  induction edits generalizing rows with
  | nil => exact Or.inr member
  | cons keyed edits ih =>
      rcases ih member with ⟨later, inside, named⟩ | before
      · exact Or.inl ⟨later, List.mem_cons_of_mem _ inside, named⟩
      · by_cases own : keyed.table.name = name
        · exact Or.inl ⟨keyed, List.mem_cons_self, own⟩
        · right
          rw [addRow, TableRows.put, Std.ExtTreeMap.mem_iff_isSome_getElem?,
            ByName.getElem?_alter, if_neg own, ← Std.ExtTreeMap.mem_iff_isSome_getElem?] at before
          exact before

/-- The rows that the edits of one operation make up. -/
def rowsOf (operation : Operation) (edits : List KeyedEdit) : TableRows :=
  (edits.filter fun keyed => keyed.edit.operation = operation).foldl addRow ∅

/-- A batch has one group for each of its operations. -/
theorem mem_byOperation_iff {edits : List KeyedEdit} {operation : Operation} {rows : TableRows} :
    (operation, rows) ∈ byOperation edits ↔
      (∃ keyed ∈ edits, keyed.edit.operation = operation) ∧ rows = rowsOf operation edits := by
  unfold byOperation
  simp only [List.mem_map, List.mem_eraseDups, Prod.mk.injEq]
  constructor
  · rintro ⟨_, ⟨keyed, member, operated⟩, rfl, rfl⟩
    exact ⟨⟨keyed, member, operated⟩, rfl⟩
  · rintro ⟨⟨keyed, member, operated⟩, rfl⟩
    exact ⟨operation, ⟨keyed, member, operated⟩, rfl, rfl⟩

/-- The edits of a batch of one operation on one row. -/
def editsOf (operation : Operation) (table rowKey : String) (edits : List KeyedEdit) :
    List KeyedEdit :=
  (edits.filter fun keyed => keyed.edit.operation = operation).filter (isOfRow table rowKey)

/-- The edits of one operation on one row, by what they name. -/
theorem mem_editsOf_iff {operation : Operation} {table rowKey : String} {edits : List KeyedEdit}
    {keyed : KeyedEdit} :
    keyed ∈ editsOf operation table rowKey edits ↔ keyed ∈ edits ∧
      keyed.edit.operation = operation ∧ keyed.table.name = table ∧ keyed.rowKey = rowKey := by
  simp only [editsOf, isOfRow, List.mem_filter, decide_eq_true_iff, Bool.and_eq_true, and_assoc]

/-- A row of a group holds what the edits of its operation on it say together. -/
theorem getElem?_rowsOf (operation : Operation) (edits : List KeyedEdit) (table rowKey : String) :
    ((rowsOf operation edits).keyed table)[rowKey]? =
      gathered none (editsOf operation table rowKey edits) := by
  rw [rowsOf, getElem?_foldl_addRow]
  rfl

/-- Each table of a group is named by one of its edits. -/
theorem exists_of_mem_rowsOf {operation : Operation} {edits : List KeyedEdit} {name : String}
    (member : name ∈ rowsOf operation edits) :
    ∃ keyed ∈ edits, keyed.edit.operation = operation ∧ keyed.table.name = name := by
  rcases exists_of_mem_foldl_addRow member with ⟨keyed, inside, named⟩ | nothing
  · obtain ⟨inside, operated⟩ := List.mem_filter.mp inside
    exact ⟨keyed, inside, of_decide_eq_true operated, named⟩
  · exact absurd nothing Std.ExtTreeMap.not_mem_empty

/-- A row of a group has edits. -/
theorem exists_of_gathered {edits : List KeyedEdit} {fields : Fields}
    (some : gathered none edits = some fields) : ∃ keyed, keyed ∈ edits := by
  cases edits with
  | nil => cases some
  | cons keyed edits => exact ⟨keyed, List.mem_cons_self⟩

/-- A field of gathered ones is the field of an edit, or was there before. -/
theorem getElem?_gathered {edits : List KeyedEdit} {before : Option Fields} {fields : Fields}
    (whole : gathered before edits = some fields) {name value : String}
    (inside : fields[name]? = some value) :
    (∃ keyed ∈ edits, keyed.edit.fields[name]? = some value) ∨
      (before.getD ∅)[name]? = some value := by
  induction edits generalizing before with
  | nil =>
      cases whole
      exact Or.inr inside
  | cons keyed edits ih =>
      rcases ih whole with ⟨later, member, found⟩ | found
      · exact Or.inl ⟨later, List.mem_cons_of_mem _ member, found⟩
      · rw [Option.getD_some, Std.ExtTreeMap.getElem?_union, Option.or_eq_some_iff] at found
        rcases found with own | ⟨_, earlier⟩
        · exact Or.inl ⟨keyed, List.mem_cons_self, own⟩
        · exact Or.inr earlier

/-- A row of a group that is patched has an edit that patches it. -/
theorem exists_patching {operation : Operation} {edits : List KeyedEdit} {fields : Fields}
    (whole : gathered none edits = some fields)
    (operated : ∀ keyed ∈ edits, keyed.edit.operation = operation) {patch : Patch}
    (patched : RowState.ofEdit operation fields = .overlay patch) (acts : operation ≠ .none) :
    ∃ keyed ∈ edits, keyed.edit.patchesRow := by
  cases operation with
  | none => exact absurd rfl acts
  | create => cases patched
  | update =>
      obtain ⟨keyed, member⟩ := exists_of_gathered whole
      exact ⟨keyed, member, by simp [Edit.patchesRow, operated keyed member]⟩
  | delete =>
      have some : fields.areNone = false := by
        cases none : fields.areNone with
        | false => rfl
        | true => simp [RowState.ofEdit, none] at patched
      obtain ⟨name, inside, real⟩ := Fields.areNone_eq_false_iff.mp some
      obtain ⟨value, held⟩ := Option.isSome_iff_exists.mp
        (Std.ExtTreeMap.mem_iff_isSome_getElem?.mp inside)
      rcases getElem?_gathered whole held with ⟨keyed, member, own⟩ | nothing
      · have ownSome : keyed.edit.fields.areNone = false := by
          refine Fields.areNone_eq_false_iff.mpr ⟨name, ?_, real⟩
          rw [Std.ExtTreeMap.mem_iff_isSome_getElem?, own]
          rfl
        exact ⟨keyed, member, by simp [Edit.patchesRow, operated keyed member, ownSome]⟩
      · simp at nothing

/-- Whether a group consists of the rows of an operation and passed, rows that are written with the data
that they depend on in a world. -/
structure IsJudged (engine : Engine) (requests : StagedEdits) (operation : Operation)
    (rows : TableRows) (world : World) (group : Group) : Prop where
  operated : group.operation = operation
  gathered : group.rows = rows
  translated : Document.ofRows engine.setting.schema rows = .ok group.subject
  accepted : operation = .create ∨ operation = .update → ∃ dependent later,
    (Dependency.ofSubject { setting := engine.setting, staged := requests }
      group.subject.roots).outcome world = (.ok dependent, later) ∧
    engine.processor group.subject (some dependent) operation = .ok ()
  passed : operation ≠ .none → ∃ dependent,
    engine.processor group.subject (some dependent) operation = .ok ()

private theorem accepted_of_judge {engine : Engine} {subject : Document} {dependent : Option Document}
    {operation : Operation} {world later : World}
    (accepted : (engine.judge subject dependent operation).outcome world = (.ok (), later)) :
    engine.processor subject dependent operation = .ok () := by
  obtain ⟨_, _, _, judged⟩ := WorldM.outcome_bind_eq_ok_iff.mp accepted
  exact (WorldM.outcome_except_eq_ok_iff.mp judged).1

/-- A group that is judged without a rejection. -/
theorem isJudged_of_judged {engine : Engine} {requests : StagedEdits} {operation : Operation}
    {rows : TableRows} {group : Group} {world later : World}
    (accepted : (judged engine requests operation rows).outcome world = (.ok group, later)) :
    IsJudged engine requests operation rows world group := by
  obtain ⟨subject, middle, translated, rest⟩ := WorldM.outcome_bind_eq_ok_iff.mp accepted
  obtain ⟨made, rfl⟩ := WorldM.outcome_except_eq_ok_iff.mp translated
  cases operation with
  | none =>
      cases rest
      exact ⟨rfl, rfl, made, by simp, fun acts => absurd rfl acts⟩
  | delete =>
      obtain ⟨dependent, _, _, rest⟩ := WorldM.outcome_bind_eq_ok_iff.mp rest
      obtain ⟨_, _, judgement, answered⟩ := WorldM.outcome_bind_eq_ok_iff.mp rest
      cases answered
      exact ⟨rfl, rfl, made, by simp, fun _ => ⟨dependent, accepted_of_judge judgement⟩⟩
  | create | update =>
      obtain ⟨dependent, loaded, resolved, rest⟩ := WorldM.outcome_bind_eq_ok_iff.mp rest
      obtain ⟨_, _, judgement, answered⟩ := WorldM.outcome_bind_eq_ok_iff.mp rest
      cases answered
      have passed := accepted_of_judge judgement
      exact ⟨rfl, rfl, made, fun _ => ⟨dependent, loaded, resolved, passed⟩, fun _ => ⟨dependent, passed⟩⟩

end Group

end ConfigVetting
