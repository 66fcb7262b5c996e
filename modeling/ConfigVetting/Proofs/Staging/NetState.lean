import ConfigVetting.Proofs.Maps
import ConfigVetting.Proofs.Staging.Composition
import ConfigVetting.Staging.Edits

/-! # The net effect of staged edits

The edits of a row are folded into one state as they are staged. Edits whose names carry the list mark at
most once, and are not the list spelling of the placeholder, have a state whose patch is as regular
(`ConfigVetting.RowState.isRegular_state`), and so has one state after another
(`ConfigVetting.RowState.IsRegular.andThen`).
-/

namespace ConfigVetting

namespace StagedEdit

/-- A row after an edit: a create replaces it, an update lays fields over a row that is there, and a
delete takes fields out of it or removes it. -/
def applyTo (row : Option Fields) (edit : StagedEdit) : Option Fields :=
  match edit.operation with
  | .create => some edit.fields
  | .update | .none => row.map fun fields => fields.laid edit.fields.toList
  | .delete =>
    if edit.fields.areNone then none
    else row.map fun fields => fields.withoutAll edit.fields.keys

/-- The state of a row by one edit. -/
def state (edit : StagedEdit) : RowState :=
  .ofEdit edit.operation edit.fields

/-- Whether the names of an edit carry the list mark at most once, and none is the list spelling of
the placeholder. -/
def IsRegular (edit : StagedEdit) : Prop :=
  ∀ name ∈ edit.fields.keys, IsMarkedOnce name ∧ name ≠ listSpelling placeholder

instance (edit : StagedEdit) : Decidable edit.IsRegular :=
  inferInstanceAs (Decidable (∀ name ∈ edit.fields.keys, _))

end StagedEdit

namespace Patch

/-- The patch of some names removes their plain names. -/
theorem mem_removed_removing {names : List String} {name : String} :
    name ∈ (removing names).removed ↔ name ∈ names.map baseName := by
  rw [removing, Names.mem_foldl_insert]
  simp

private theorem isRegular_setting {edit : StagedEdit} (regular : edit.IsRegular) :
    (setting edit.fields).IsRegular where
  once name member := (regular name (Std.ExtTreeMap.mem_keys.mpr member)).1
  apart member := (regular _ (Std.ExtTreeMap.mem_keys.mpr member)).2 rfl
  plain _ member := absurd member Std.ExtTreeSet.not_mem_empty

private theorem isRegular_removing {names : List String} (once : ∀ name ∈ names, IsMarkedOnce name) :
    (removing names).IsRegular where
  once _ member := absurd member Std.ExtTreeMap.not_mem_empty
  apart member := absurd member Std.ExtTreeMap.not_mem_empty
  plain name member := by
    obtain ⟨spelled, inside, rfl⟩ := List.mem_map.mp (mem_removed_removing.mp member)
    have plain := (once spelled inside).baseName_baseName
    refine ⟨plain, isMarkedOnce_iff.mpr ?_⟩
    rw [plain]
    exact isMarkedOnce_iff.mp (once spelled inside)

/-- The patch of some names takes their fields out of a row. -/
theorem apply_removing {names : List String} (once : ∀ name ∈ names, IsMarkedOnce name)
    (row : Fields) : ((removing names).apply row).SameFields (row.withoutAll names) := by
  have regular := isRegular_removing once
  intro key _
  have same : baseName key ∈ (removing names).removed.toList ↔ baseName key ∈ names.map baseName := by
    rw [Std.ExtTreeSet.mem_toList, mem_removed_removing]
  change (row.withoutAll (removing names).removed.toList)[key]? = _
  rw [Fields.getElem?_withoutAll _ fun name member => (regular.removed_plain name member).2,
    Fields.getElem?_withoutAll _ once, regular.map_baseName_removed]
  simp only [same]

end Patch

namespace RowState

/-- Whether the patch of a state is regular, if it has one. -/
def IsRegular : RowState → Prop
  | overlay patch => patch.IsRegular
  | _ => True

instance (state : RowState) : Decidable state.IsRegular :=
  match state with
  | present _ => inferInstanceAs (Decidable True)
  | overlay patch => inferInstanceAs (Decidable patch.IsRegular)
  | deleted => inferInstanceAs (Decidable True)

/-- The state of a regular edit is regular. -/
theorem isRegular_state {edit : StagedEdit} (regular : edit.IsRegular) :
    edit.state.IsRegular := by
  obtain ⟨operation, fields⟩ := edit
  cases operation with
  | create => trivial
  | update => exact Patch.isRegular_setting regular
  | none => exact Patch.isRegular_setting regular
  | delete =>
      unfold StagedEdit.state ofEdit
      by_cases whole : fields.areNone
      · simp only [whole, ↓reduceIte, IsRegular]
      · simp only [whole, Bool.false_eq_true, ↓reduceIte]
        exact Patch.isRegular_removing fun name member => (regular name member).1

/-- States one after another are regular if each of them is. -/
theorem IsRegular.andThen {first second : RowState} (regularFirst : first.IsRegular)
    (regularSecond : second.IsRegular) : (first.andThen second).IsRegular := by
  cases second with
  | present fields => cases first <;> trivial
  | deleted => cases first <;> trivial
  | overlay patch =>
      cases first with
      | present fields => trivial
      | deleted => trivial
      | overlay earlier => exact Patch.IsRegular.andThen regularFirst regularSecond

end RowState

namespace StagedEdits

/-- The row that a stored one becomes by the net effect of its staged edits. -/
def rowAfter (staged : StagedEdits) (table rowKey : String) (stored : Option Fields) :
    Option Fields :=
  match staged.state? table rowKey with
  | some state => state.apply stored
  | none => stored

/-- The row that a stored one becomes by its staged edits one after another. -/
def rowInTurn (staged : StagedEdits) (table rowKey : String) (stored : Option Fields) :
    Option Fields :=
  (staged.edits table rowKey).foldl StagedEdit.applyTo stored

end StagedEdits

end ConfigVetting
