import ConfigVetting.Proofs.Schema.References
import ConfigVetting.Proofs.Session.Recording
import ConfigVetting.Proofs.Staging.Stepwise

/-! # Rows through a batch

What a row is or shows after a batch was made by an edit of the batch, whose group then shows it, or was
so before the batch and after each of its edits (`ConfigVetting.KeyedEdit.gathered_or_there`,
`ConfigVetting.KeyedEdit.shown_or_kept`). The rows between two edits are those by which the later edit is
checked (`ConfigVetting.Staged.exists_of_addChecked`).
-/

namespace ConfigVetting

open StagedEdits

namespace KeyedEdit

variable {earlier : List StagedEdit} {stored : Option Fields} {table rowKey : String}
  {edits : List KeyedEdit}

/-- A row that an edit on it takes away is removed by it. -/
theorem removesRow_of_apply {keyed : KeyedEdit} {row : Option Fields} (there : row.isSome)
    (gone : keyed.staged.state.apply row = none) : keyed.removesRow = true := by
  obtain ⟨fields, rfl⟩ := Option.isSome_iff_exists.mp there
  unfold removesRow
  change (RowState.ofEdit keyed.edit.operation keyed.edit.fields).apply (some fields) = none at gone
  cases operated : keyed.edit.operation with
  | delete =>
      cases none : keyed.edit.fields.areNone with
      | true => rfl
      | false => simp [operated, RowState.ofEdit, none, RowState.apply] at gone
  | create => simp [operated, RowState.ofEdit, RowState.apply] at gone
  | update => simp [operated, RowState.ofEdit, RowState.apply] at gone
  | none => simp [operated, RowState.ofEdit, RowState.apply] at gone

/-- A row that is there before some edits and not after them is removed by one of them that finds it
there. -/
theorem exists_removing (before : (rowBy earlier stored).isSome)
    (gone : rowBy (earlier ++ stagedOn table rowKey edits) stored = none) :
    ∃ front one back, edits = front ++ one :: back ∧ one.removesRow = true ∧
      one.table.name = table ∧ one.rowKey = rowKey := by
  induction edits using List.reverseRecOn with
  | nil =>
      rw [stagedOn, List.filter_nil, List.map_nil, List.append_nil] at gone
      rw [gone] at before
      cases before
  | append_singleton edits last ih =>
      rw [stagedOn_append, stagedOn_singleton, ← List.append_assoc] at gone
      cases held : rowBy (earlier ++ stagedOn table rowKey edits) stored with
      | none =>
          obtain ⟨front, one, back, rfl, own⟩ := ih held
          exact ⟨front, one, back ++ [last], by simp, own⟩
      | some fields =>
          by_cases ofRow : last.table.name = table ∧ last.rowKey = rowKey
          · rw [if_pos ofRow] at gone
            have applied := isSome_rowBy_concat (earlier ++ stagedOn table rowKey edits) last.staged
              stored
            rw [gone, held] at applied
            have removes := @removesRow_of_apply last (some fields) rfl
              (Option.not_isSome_iff_eq_none.mp (by rw [← applied]; simp))
            exact ⟨edits, last, [], rfl, removes, ofRow⟩
          · rw [if_neg ofRow, List.append_nil, held] at gone
            cases gone

/-- A row that is there after some edits was created by one of them, or there throughout. -/
theorem created_or_there (after : (rowBy (earlier ++ stagedOn table rowKey edits) stored).isSome) :
    (∃ one ∈ edits, one.edit.operation = .create ∧ one.table.name = table ∧
      one.rowKey = rowKey) ∨
    ∀ front, front <+: edits → (rowBy (earlier ++ stagedOn table rowKey front) stored).isSome := by
  induction edits using List.reverseRecOn with
  | nil =>
      right
      intro front inside
      rwa [List.prefix_nil.mp inside]
  | append_singleton edits last ih =>
      have kept : last.edit.operation = .create ∧ last.table.name = table ∧ last.rowKey = rowKey ∨
          (rowBy (earlier ++ stagedOn table rowKey edits) stored).isSome := by
        have applied := after
        rw [stagedOn_append, stagedOn_singleton, ← List.append_assoc] at applied
        by_cases ofRow : last.table.name = table ∧ last.rowKey = rowKey
        · rw [if_pos ofRow, isSome_rowBy_concat] at applied
          exact (StagedEdit.created_or_kept applied).imp_left fun created => ⟨created, ofRow⟩
        · rw [if_neg ofRow, List.append_nil] at applied
          exact Or.inr applied
      rcases kept with own | before
      · exact Or.inl ⟨last, List.mem_append_right _ List.mem_cons_self, own⟩
      · rcases ih before with ⟨one, member, own⟩ | throughout
        · exact Or.inl ⟨one, List.mem_append_left _ member, own⟩
        · right
          intro front inside
          rcases List.prefix_concat_iff.mp inside with rfl | shorter
          · exact after
          · exact throughout front shorter

end KeyedEdit

namespace Group

/-- The edits of one operation on one row, after one more edit. -/
theorem editsOf_concat (operation : Operation) (table rowKey : String) (edits : List KeyedEdit)
    (last : KeyedEdit) :
    editsOf operation table rowKey (edits ++ [last]) = editsOf operation table rowKey edits ++
      if last.edit.operation = operation ∧ last.table.name = table ∧ last.rowKey = rowKey then [last]
      else [] := by
  unfold editsOf isOfRow
  rw [List.filter_append, List.filter_append]
  by_cases operated : last.edit.operation = operation
  · by_cases ofRow : last.table.name = table ∧ last.rowKey = rowKey
    · simp [operated, ofRow]
    · rw [if_neg fun all => ofRow all.2]
      simp [operated]
      tauto
  · simp [operated]

/-- Edits of a row gather its fields. -/
theorem isSome_gathered {edits : List KeyedEdit} {keyed : KeyedEdit} (member : keyed ∈ edits) :
    (gathered none edits).isSome := by
  cases edits using List.reverseRecOn with
  | nil => cases member
  | append_singleton edits last =>
      unfold gathered
      rw [List.foldl_append]
      rfl

/-- The last edit of a row overrules the ones before it, field by field. -/
theorem gathered_concat (before : Option Fields) (edits : List KeyedEdit) (last : KeyedEdit) :
    gathered before (edits ++ [last]) =
      some ((gathered before edits).getD ∅ ∪ last.edit.fields) := by
  unfold gathered
  rw [List.foldl_append]
  rfl

end Group

namespace KeyedEdit

open ConfigVetting.Group

variable {earlier : List StagedEdit} {stored : Option Fields} {table rowKey : String}
  {edits : List KeyedEdit}

/-- What a row holds under a name after one more edit was set by that edit, or held before it and not set
by it. -/
theorem set_or_kept_of_concat {last : KeyedEdit}
    (regular : ∀ edit ∈ earlier ++ stagedOn table rowKey (edits ++ [last]), edit.IsRegular)
    {name text : String} (real : baseName name ≠ placeholder)
    (held : heldUnder name (rowBy (earlier ++ stagedOn table rowKey (edits ++ [last])) stored) =
      some text) :
    (last.table.name = table ∧ last.rowKey = rowKey) ∧ last.edit.operation ≠ .delete ∧
        last.edit.fields[name]? = some text ∨
      heldUnder name (rowBy (earlier ++ stagedOn table rowKey edits) stored) = some text ∧
        (last.table.name = table ∧ last.rowKey = rowKey → last.edit.operation ≠ .delete →
          last.edit.fields[name]? = none) := by
  rw [stagedOn_append, stagedOn_singleton, ← List.append_assoc] at held regular
  by_cases ofRow : last.table.name = table ∧ last.rowKey = rowKey
  · rw [if_pos ofRow] at held regular
    rw [heldUnder_rowBy_concat regular stored real] at held
    have regularLast := regular last.staged (List.mem_append_right _ List.mem_cons_self)
    rcases StagedEdit.set_or_kept regularLast (Patch.ne_placeholder_of_baseName real).1 held with
      ⟨sets, own⟩ | ⟨before, others⟩
    · exact Or.inl ⟨ofRow, sets, own⟩
    · exact Or.inr ⟨before, fun _ => others⟩
  · rw [if_neg ofRow, List.append_nil] at held
    exact Or.inr ⟨held, fun own => absurd own ofRow⟩

/-- What the row of a group holds under a name it holds after one more edit, unless that edit sets it. -/
theorem exists_gathered_concat (last : KeyedEdit) {operation : Operation} {fields : Fields}
    {name text : String}
    (whole : gathered none (editsOf operation table rowKey edits) = some fields)
    (own : fields[name]? = some text)
    (unset : last.edit.operation = operation → last.table.name = table ∧ last.rowKey = rowKey →
      last.edit.fields[name]? = none) :
    ∃ fields, gathered none (editsOf operation table rowKey (edits ++ [last])) = some fields ∧
      fields[name]? = some text := by
  by_cases again : last.edit.operation = operation ∧ last.table.name = table ∧ last.rowKey = rowKey
  · refine ⟨fields ∪ last.edit.fields, ?_, ?_⟩
    · rw [editsOf_concat, if_pos again, gathered_concat, whole, Option.getD_some]
    · rw [Std.ExtTreeMap.getElem?_union, unset again.1 again.2, own]
      rfl
  · refine ⟨fields, ?_, own⟩
    rw [editsOf_concat, if_neg again, List.append_nil, whole]

/-- What a row holds under a name after some edits is in the row of one of their groups, or held
throughout. -/
theorem gathered_or_kept (acts : ∀ one ∈ edits, one.edit.operation ≠ .none)
    (regular : ∀ edit ∈ earlier ++ stagedOn table rowKey edits, edit.IsRegular)
    {name text : String} (real : baseName name ≠ placeholder)
    (held : heldUnder name (rowBy (earlier ++ stagedOn table rowKey edits) stored) = some text) :
    (∃ operation fields, (operation = .create ∨ operation = .update) ∧
      gathered none (editsOf operation table rowKey edits) = some fields ∧
        fields[name]? = some text) ∨
    ∀ front, front <+: edits →
      heldUnder name (rowBy (earlier ++ stagedOn table rowKey front) stored) = some text := by
  induction edits using List.reverseRecOn with
  | nil =>
      right
      intro front inside
      rwa [List.prefix_nil.mp inside]
  | append_singleton edits last ih =>
      rcases set_or_kept_of_concat regular real held with ⟨ofRow, sets, own⟩ | ⟨before, unset⟩
      · left
        have one := acts last (List.mem_append_right _ List.mem_cons_self)
        have writes : last.edit.operation = .create ∨ last.edit.operation = .update := by
          cases operated : last.edit.operation with
          | create => exact Or.inl rfl
          | update => exact Or.inr rfl
          | delete => exact absurd operated sets
          | none => exact absurd operated one
        have whole := gathered_concat none (editsOf last.edit.operation table rowKey edits) last
        have ofGroup := editsOf_concat last.edit.operation table rowKey edits last
        rw [if_pos ⟨rfl, ofRow⟩] at ofGroup
        rw [← ofGroup] at whole
        refine ⟨last.edit.operation, _, writes, whole, ?_⟩
        rw [Std.ExtTreeMap.getElem?_union, own]
        rfl
      · have actsEarlier : ∀ one ∈ edits, one.edit.operation ≠ .none := fun one member =>
          acts one (List.mem_append_left _ member)
        have regularEarlier : ∀ edit ∈ earlier ++ stagedOn table rowKey edits, edit.IsRegular := by
          intro edit member
          rw [stagedOn_append, ← List.append_assoc] at regular
          exact regular edit (List.mem_append_left _ member)
        rcases ih actsEarlier regularEarlier before with
          ⟨operation, fields, writes, whole, own⟩ | throughout
        · left
          have unsetThen : last.edit.operation = operation →
              last.table.name = table ∧ last.rowKey = rowKey → last.edit.fields[name]? = none := by
            rintro rfl ofRow
            exact unset ofRow (by rcases writes with same | same <;> simp [same])
          obtain ⟨fields, wholeThen, ownThen⟩ := exists_gathered_concat last whole own unsetThen
          exact ⟨operation, fields, writes, wholeThen, ownThen⟩
        · right
          intro front inside
          rcases List.prefix_concat_iff.mp inside with rfl | shorter
          · exact held
          · exact throughout front shorter

/-- A row that is there after some edits is in one of their groups, or there throughout. -/
theorem gathered_or_there (after : (rowBy (earlier ++ stagedOn table rowKey edits) stored).isSome) :
    (∃ fields, gathered none (editsOf .create table rowKey edits) = some fields) ∨
      ∀ front, front <+: edits →
        (rowBy (earlier ++ stagedOn table rowKey front) stored).isSome := by
  rcases created_or_there after with ⟨one, member, creates, ofRow⟩ | throughout
  · exact Or.inl (Option.isSome_iff_exists.mp
      (isSome_gathered (mem_editsOf_iff.mpr ⟨member, creates, ofRow⟩)))
  · exact Or.inr throughout

/-- What a row shows by one of its fields after some edits is shown by the row of one of their groups, or
by the row throughout. -/
theorem shown_or_kept (acts : ∀ one ∈ edits, one.edit.operation ≠ .none)
    (regular : ∀ edit ∈ earlier ++ stagedOn table rowKey edits, edit.IsRegular) {fields : Fields}
    (row : rowBy (earlier ++ stagedOn table rowKey edits) stored = some fields)
    (unmarked : listSpelling placeholder ∉ fields) {shown : Fields → Prop}
    (owed : TableSchema.IsOwedToField shown fields) :
    (∃ operation fields, (operation = .create ∨ operation = .update) ∧
      gathered none (editsOf operation table rowKey edits) = some fields ∧ shown fields) ∨
    ∀ front, front <+: edits → ∃ fields,
      rowBy (earlier ++ stagedOn table rowKey front) stored = some fields ∧ shown fields := by
  obtain ⟨name, text, notPlaceholder, held, shows⟩ := owed
  have real : baseName name ≠ placeholder := by
    intro standIn
    rcases eq_baseName_or_eq_listSpelling name with plain | listed
    · exact notPlaceholder (plain.trans standIn)
    · rw [listed, standIn] at held
      refine unmarked (Std.ExtTreeMap.mem_iff_isSome_getElem?.mpr ?_)
      rw [held]
      rfl
  have heldAfter : heldUnder name (rowBy (earlier ++ stagedOn table rowKey edits) stored) =
      some text := by
    rw [row]
    exact held
  rcases gathered_or_kept acts regular real heldAfter with
    ⟨operation, gatheredFields, sets, whole, own⟩ | kept
  · exact Or.inl ⟨operation, gatheredFields, sets, whole, shows gatheredFields own⟩
  · right
    intro front inside
    obtain ⟨before, there, own⟩ := Option.bind_eq_some_iff.mp (kept front inside)
    exact ⟨before, there, shows before own⟩

end KeyedEdit

namespace Staged

open WorldM

variable {setting : Setting} {staged last : Staged} {world later : World}

/-- Each edit that passed was checked against the rows as the edits before it left them. -/
theorem exists_of_addChecked {front back : List KeyedEdit} {one : KeyedEdit}
    (added : ((front ++ one :: back).foldlM (addChecked setting) staged).outcome world =
      (.ok last, later)) :
    ∃ (between : Staged) (middle : World), world.OnlyRead setting middle ∧
      (∀ table rowKey, between.requests.edits table rowKey =
        staged.requests.edits table rowKey ++ KeyedEdit.stagedOn table rowKey front) ∧
      (one.removesRow → ∃ after, (DeleteIntegrity.check setting between.requests
        ⟨one.table, one.rowKey, one.keyComponents⟩).outcome middle = (.ok (), after)) := by
  rw [List.foldlM_append] at added
  obtain ⟨between, first, frontAdded, rest⟩ := outcome_bind_eq_ok_iff.mp added
  rw [List.foldlM_cons] at rest
  obtain ⟨_, _, oneAdded, _⟩ := outcome_bind_eq_ok_iff.mp rest
  obtain ⟨_, middle, existence, checked⟩ := checked_of_addChecked oneAdded
  have frontRead : world.OnlyRead setting first :=
    (IsReading.foldlM isReading_addChecked front staged).onlyRead frontAdded
  have existenceRead : first.OnlyRead setting middle :=
    (isReading_checkExistence between one).onlyRead existence
  exact ⟨between, middle, frontRead.trans existenceRead,
    edits_of_foldlM (fun added => (checked_of_addChecked added).1) frontAdded, checked⟩

end Staged

end ConfigVetting
