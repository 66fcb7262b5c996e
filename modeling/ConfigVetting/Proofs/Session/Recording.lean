import ConfigVetting.Proofs.Session.Preparation
import ConfigVetting.Staging.Edits

/-! # What staging records

Each edit of a batch that passes is recorded behind the earlier edits of its row, whatever is checked
and counted before. So the staged edits of a row after a batch are those from before it and those of
the batch, in the order in which they were submitted
(`ConfigVetting.Session.IsPrepared.edits_eq`).
-/

namespace ConfigVetting

/-- The staged edits with one more hold it behind those of its row. -/
theorem StagedEdits.edits_record (staged : StagedEdits) (table rowKey : String)
    (operation : Operation) (fields : Fields) (otherTable otherKey : String) :
    (staged.record table rowKey operation fields).edits otherTable otherKey =
      staged.edits otherTable otherKey ++
        if table = otherTable ∧ rowKey = otherKey then [⟨operation, fields⟩] else [] := by
  unfold record edits
  rw [ByName.getElem?_alter]
  by_cases sameTable : table = otherTable
  · subst sameTable
    rw [if_pos rfl, Option.getD_some, ByName.getElem?_alter]
    by_cases sameKey : rowKey = otherKey
    · subst sameKey
      rw [if_pos rfl, if_pos ⟨rfl, rfl⟩]
      rfl
    · rw [if_neg sameKey, if_neg fun both => sameKey both.2, List.append_nil]
  · rw [if_neg sameTable, if_neg fun both => sameTable both.1, List.append_nil]

/-- The edit as it is staged. -/
def KeyedEdit.staged (keyed : KeyedEdit) : StagedEdit :=
  ⟨keyed.edit.operation, keyed.edit.fields⟩

/-- The edits on one row among those whose keys are resolved, as they are staged. -/
def KeyedEdit.stagedOn (table rowKey : String) (edits : List KeyedEdit) : List StagedEdit :=
  (edits.filter (Group.isOfRow table rowKey)).map KeyedEdit.staged

/-- What edits stage on a row, they stage in their order. -/
theorem KeyedEdit.stagedOn_append (table rowKey : String) (first second : List KeyedEdit) :
    stagedOn table rowKey (first ++ second) =
      stagedOn table rowKey first ++ stagedOn table rowKey second := by
  unfold stagedOn
  rw [List.filter_append, List.map_append]

/-- An edit is staged on its own row alone. -/
theorem KeyedEdit.stagedOn_singleton (table rowKey : String) (keyed : KeyedEdit) :
    stagedOn table rowKey [keyed] =
      if keyed.table.name = table ∧ keyed.rowKey = rowKey then [keyed.staged] else [] := by
  unfold stagedOn
  by_cases own : Group.isOfRow table rowKey keyed
  · rw [List.filter_cons_of_pos own, if_pos (by simpa [Group.isOfRow] using own)]
    rfl
  · rw [List.filter_cons_of_neg own, if_neg (by simpa [Group.isOfRow] using own)]
    rfl

namespace Staged

open WorldM

variable {setting : Setting} {staged later : Staged} {keyed : KeyedEdit} {world after : World}

/-- An edit is recorded behind those of the same row. -/
theorem edits_record (staged : Staged) (keyed : KeyedEdit) (table rowKey : String) :
    (staged.record keyed).requests.edits table rowKey =
      staged.requests.edits table rowKey ++ KeyedEdit.stagedOn table rowKey [keyed] := by
  unfold record
  rw [StagedEdits.edits_record, KeyedEdit.stagedOn_singleton]
  rfl

/-- Counting the row of an edit changes nothing but the count of its table, and only if the table has a
limit and the edit makes or removes its row. -/
theorem cases_of_countRow
    (counted : (staged.countRow keyed).outcome world = (.ok later, after)) :
    later = staged ∧
        (keyed.table.maxElements = none ∨ ¬keyed.removesRow ∧ keyed.edit.operation ≠ .create) ∨
      ∃ limit count middle, keyed.table.maxElements = some limit ∧
        (staged.count keyed.table).outcome world = (.ok count, middle) ∧
        (keyed.removesRow ∧
            later = { staged with counts := staged.counts.insert keyed.table.name (count - 1) } ∨
          keyed.edit.operation = .create ∧ count + 1 ≤ limit ∧
            later = { staged with counts := staged.counts.insert keyed.table.name (count + 1) }) := by
  unfold countRow at counted
  cases limited : keyed.table.maxElements with
  | none =>
      simp only [limited] at counted
      cases counted
      exact Or.inl ⟨rfl, Or.inl rfl⟩
  | some limit =>
      simp only [limited] at counted
      by_cases removes : keyed.removesRow
      · rw [if_pos removes] at counted
        obtain ⟨count, middle, asked, answered⟩ := outcome_bind_eq_ok_iff.mp counted
        cases answered
        exact Or.inr ⟨limit, count, _, rfl, asked, Or.inl ⟨removes, rfl⟩⟩
      · rw [if_neg removes] at counted
        by_cases creates : keyed.edit.operation = .create
        · rw [if_pos creates] at counted
          obtain ⟨count, middle, asked, rest⟩ := outcome_bind_eq_ok_iff.mp counted
          by_cases many : limit < count + 1
          · rw [if_pos many] at rest
            obtain ⟨_, _, thrown, _⟩ := outcome_bind_eq_ok_iff.mp rest
            cases thrown
          · rw [if_neg many] at rest
            cases rest
            exact Or.inr ⟨limit, count, _, rfl, asked, Or.inr ⟨creates, Nat.not_lt.mp many, rfl⟩⟩
        · rw [if_neg creates] at counted
          cases counted
          exact Or.inl ⟨rfl, Or.inr ⟨removes, creates⟩⟩

/-- Counting the row of an edit does not touch the staged edits. -/
theorem requests_of_countRow
    (counted : (staged.countRow keyed).outcome world = (.ok later, after)) :
    later.requests = staged.requests := by
  rcases cases_of_countRow counted with ⟨rfl, _⟩ |
    ⟨_, _, _, _, _, ⟨_, rfl⟩ | ⟨_, _, rfl⟩⟩ <;> rfl

/-- An edit that passes is counted and recorded. -/
theorem eq_record_of_addContext
    (added : (staged.addContext keyed).outcome world = (.ok later, after)) :
    ∃ counted middle, (staged.countRow keyed).outcome world = (.ok counted, middle) ∧
      later = counted.record keyed := by
  obtain ⟨counted, middle, passed, recorded⟩ := outcome_bind_eq_ok_iff.mp added
  cases recorded
  exact ⟨counted, _, passed, rfl⟩

/-- An edit that passes is recorded. -/
theorem requests_of_addContext
    (added : (staged.addContext keyed).outcome world = (.ok later, after)) :
    later.requests = (staged.record keyed).requests := by
  obtain ⟨counted, middle, passed, rfl⟩ := eq_record_of_addContext added
  unfold record
  rw [requests_of_countRow passed]

/-- An edit that passes its own checks was checked for its row being there or not and, if it removes
the row, for what refers to it, and is recorded. -/
theorem checked_of_addChecked
    (added : (addChecked setting staged keyed).outcome world = (.ok later, after)) :
    later.requests = (staged.record keyed).requests ∧ ∃ first,
      (staged.checkExistence keyed).outcome world = (.ok (), first) ∧
      (keyed.removesRow → ∃ second, (DeleteIntegrity.check setting staged.requests
        ⟨keyed.table, keyed.rowKey, keyed.keyComponents⟩).outcome first = (.ok (), second)) := by
  unfold addChecked at added
  obtain ⟨_, first, exists', rest⟩ := outcome_bind_eq_ok_iff.mp added
  by_cases removes : keyed.removesRow
  · rw [if_pos removes] at rest
    obtain ⟨_, second, checked, recorded⟩ := outcome_bind_eq_ok_iff.mp rest
    exact ⟨requests_of_addContext recorded, first, exists', fun _ => ⟨second, checked⟩⟩
  · rw [if_neg removes] at rest
    exact ⟨requests_of_addContext rest, first, exists', fun own => absurd own removes⟩

/-- Edits that pass one after another are recorded behind those of their rows. -/
theorem edits_of_foldlM {step : Staged → KeyedEdit → WorldM Staged}
    (records : ∀ {staged later : Staged} {keyed : KeyedEdit} {world after : World},
      (step staged keyed).outcome world = (.ok later, after) →
        later.requests = (staged.record keyed).requests)
    {edits : List KeyedEdit} (added : (edits.foldlM step staged).outcome world = (.ok later, after))
    (table rowKey : String) :
    later.requests.edits table rowKey =
      staged.requests.edits table rowKey ++ KeyedEdit.stagedOn table rowKey edits := by
  induction edits generalizing staged world with
  | nil =>
      cases added
      simp [KeyedEdit.stagedOn]
  | cons keyed edits ih =>
      rw [List.foldlM_cons] at added
      obtain ⟨between, middle, head, rest⟩ := outcome_bind_eq_ok_iff.mp added
      rw [ih rest, records head, edits_record, List.append_assoc, ← KeyedEdit.stagedOn_append,
        List.singleton_append]

end Staged

/-- The staged edits of a row after a batch is prepared are those from before it, those of the batch
that are context only, and the others. -/
theorem Session.IsPrepared.edits_eq {engine : Engine} {staged prepared : Staged} {edits : List Edit}
    {world : World} {keyed : List KeyedEdit} {groups : List Group}
    (isPrepared : IsPrepared engine staged edits world keyed prepared groups)
    (table rowKey : String) :
    prepared.requests.edits table rowKey = staged.requests.edits table rowKey ++
      (KeyedEdit.stagedOn table rowKey (keyed.filter fun keyed => !keyed.edit.validateNow) ++
        KeyedEdit.stagedOn table rowKey (keyed.filter fun keyed => keyed.edit.validateNow)) := by
  obtain ⟨context, first, later, contextAdded, checkedAdded⟩ := isPrepared.recorded
  rw [Staged.edits_of_foldlM (fun added => (Staged.checked_of_addChecked added).1) checkedAdded,
    Staged.edits_of_foldlM Staged.requests_of_addContext contextAdded, List.append_assoc]

end ConfigVetting
