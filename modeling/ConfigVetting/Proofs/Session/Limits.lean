import ConfigVetting.Proofs.Session.Existence

/-! # Row limits

A table with a limit has a running count, taken from the store when a row of it is first made or removed,
one more for each created row and one less for each removed one. The count does not look at the rows: a
created row that is there already and a removed row that is missing make it drift from them. After every
run of batches the rows of a table keep its limit and its count is theirs exactly if these drifts cancel
out (`ConfigVetting.Session.Accepts.keepsLimit_iff`). They do, step by step, if every edit is checked and
acts (`ConfigVetting.Session.Accepts.drift_eq_zero`).
-/

namespace ConfigVetting

/-- The rows of a table as the staged edits make them of the stored ones, one after another. -/
def StagedEdits.seen (staged : StagedEdits) (table : TableSchema) (rows : ByName Fields) :
    KeyedRows :=
  (staged.tables[table.name]?.getD ∅).toList.foldl (fun seen row =>
    seen.alter row.1 fun stored => row.2.foldl StagedEdit.applyTo stored)
      (Store.tableRows table rows)

private theorem StagedEdits.getElem?_seen (staged : StagedEdits) (table : TableSchema)
    (rows : ByName Fields) (rowKey : String) :
    (staged.seen table rows)[rowKey]? =
      staged.rowInTurn table.name rowKey rows[table.storeKey rowKey]? := by
  unfold seen rowInTurn edits
  have changed := ByName.getElem?_foldl_alter
    (fun edits stored => List.foldl StagedEdit.applyTo stored edits)
    (ByName.nodup_toList (staged.tables[table.name]?.getD ∅)) (Store.tableRows table rows) rowKey
  rw [ByName.find?_toList, Store.getElem?_tableRows] at changed
  refine changed.trans ?_
  cases (staged.tables[table.name]?.getD ∅)[rowKey]? <;> rfl

private theorem KeyedEdit.removesRow_iff (keyed : KeyedEdit) :
    keyed.removesRow = true ↔ keyed.staged.Removes := by
  unfold removesRow
  rw [Bool.and_eq_true, decide_eq_true_iff]
  rfl

/-- The rows of a table, how many there are by the running count, and how far that is off. -/
structure RowTally where
  rows : KeyedRows
  count : Nat
  drift : Int := 0

namespace RowTally

/-- The rows after an edit. -/
def rowsAfter (tally : RowTally) (keyed : KeyedEdit) : KeyedRows :=
  tally.rows.alter keyed.rowKey fun row => StagedEdit.applyTo row keyed.staged

/-- The tally after an edit. The count does not look at the rows: a row that is created although it is
there counts again, one that is removed although it is missing is counted out if anything is left to be
counted, and one that is there may be removed with nothing left to be counted. -/
def add (tally : RowTally) (keyed : KeyedEdit) : RowTally :=
  let there : Int := if keyed.rowKey ∈ tally.rows then 1 else 0
  let rows := tally.rowsAfter keyed
  if keyed.staged.Removes then
    { rows, count := tally.count - 1, drift := tally.drift + there - min tally.count 1 }
  else if keyed.staged.operation = .create then
    { rows, count := tally.count + 1, drift := tally.drift + there }
  else { tally with rows }

variable {tally : RowTally} {keyed : KeyedEdit}

private theorem add_of_creates (creates : keyed.staged.operation = .create) :
    tally.add keyed = { rows := tally.rowsAfter keyed, count := tally.count + 1
                        drift := tally.drift + if keyed.rowKey ∈ tally.rows then 1 else 0 } := by
  have stays : ¬keyed.staged.Removes := fun removes => by
    rw [removes.1] at creates
    cases creates
  unfold add
  rw [if_neg stays, if_pos creates]

private theorem add_of_removes (removes : keyed.staged.Removes) :
    tally.add keyed = { rows := tally.rowsAfter keyed, count := tally.count - 1
                        drift := tally.drift + (if keyed.rowKey ∈ tally.rows then 1 else 0) -
                          min tally.count 1 } := by
  unfold add
  rw [if_pos removes]

private theorem add_of_keeps (keeps : ¬keyed.staged.Settles) :
    tally.add keyed = { tally with rows := tally.rowsAfter keyed } := by
  unfold add
  rw [if_neg fun removes => keeps (Or.inr removes), if_neg fun creates => keeps (Or.inl creates)]

/-- The drift is what the running count is above the number of rows. -/
def IsBalanced (tally : RowTally) : Prop :=
  (tally.count : Int) = tally.rows.size + tally.drift

private theorem IsBalanced.add (balanced : tally.IsBalanced) (keyed : KeyedEdit) :
    (tally.add keyed).IsBalanced := by
  have sized := tally.rows.size_alter_add keyed.rowKey fun row => StagedEdit.applyTo row keyed.staged
  change (tally.rowsAfter keyed).size + _ = _ at sized
  have presence : keyed.rowKey ∈ tally.rows ↔ tally.rows[keyed.rowKey]?.isSome :=
    Std.ExtTreeMap.mem_iff_isSome_getElem?
  unfold IsBalanced at balanced ⊢
  rcases keyed.staged.makes_removes_or_keeps with ⟨creates, _, made⟩ | ⟨removes, _, gone⟩ |
    ⟨keeps, _, kept⟩
  · rw [made, Option.isSome_some, if_pos rfl] at sized
    rw [add_of_creates creates]
    by_cases there : keyed.rowKey ∈ tally.rows <;> simp only [there, ↓reduceIte] at sized ⊢ <;> omega
  · rw [gone, Option.isSome_none, if_neg Bool.false_ne_true] at sized
    rw [add_of_removes removes]
    by_cases there : keyed.rowKey ∈ tally.rows <;> simp only [there, ↓reduceIte] at sized ⊢ <;> omega
  · simp only [kept, ← presence, Nat.add_right_cancel_iff] at sized
    rw [add_of_keeps keeps]
    simp only [sized]
    exact balanced

/-- The tally of a table after the edits of a run. -/
def ofEdits (table : TableSchema) (rows : ByName Fields) (edits : List KeyedEdit) : RowTally :=
  (edits.filter fun keyed => keyed.table.name = table.name).foldl add
    { rows := Store.tableRows table rows, count := (Store.tableRows table rows).size }

private theorem ofEdits_concat (table : TableSchema) (rows : ByName Fields) (edits : List KeyedEdit)
    (keyed : KeyedEdit) :
    ofEdits table rows (edits ++ [keyed]) =
      if keyed.table.name = table.name then (ofEdits table rows edits).add keyed
      else ofEdits table rows edits := by
  unfold ofEdits
  by_cases own : keyed.table.name = table.name
  · rw [if_pos own, List.filter_append, List.filter_cons_of_pos (by simpa using own),
      List.filter_nil, List.foldl_concat]
  · rw [if_neg own, List.filter_append, List.filter_cons_of_neg (by simpa using own),
      List.filter_nil, List.append_nil]

end RowTally

namespace Staged

open WorldM

/-- The running count of a table: the one that is held, else the number of its stored rows. -/
def countOver (staged : Staged) (rows : ByName Fields) (table : TableSchema) : Nat :=
  staged.counts[table.name]?.getD (Store.tableRows table rows).size

private theorem eq_of_count {staged : Staged} {table : TableSchema} {world after : World} {count : Nat}
    (counted : (staged.count table).outcome world = (.ok count, after)) :
    count = staged.countOver world.store.rows table := by
  unfold Staged.count at counted
  unfold countOver
  cases held : staged.counts[table.name]? with
  | some known =>
      simp only [held] at counted
      cases counted
      rfl
  | none =>
      simp only [held] at counted
      obtain ⟨keys, _, listed, answered⟩ := outcome_bind_eq_ok_iff.mp counted
      cases World.eq_of_outcome_askStore (Store.isRead_keys _) listed
      cases answered
      exact Store.length_keysFrom table world.store.rows

private theorem seen_record (staged : Staged) (keyed : KeyedEdit) (table : TableSchema)
    (rows : ByName Fields) :
    (staged.record keyed).requests.seen table rows =
      if keyed.table.name = table.name then (staged.requests.seen table rows).alter keyed.rowKey
        fun row => StagedEdit.applyTo row keyed.staged
      else staged.requests.seen table rows := by
  refine Std.ExtTreeMap.ext_getElem? fun rowKey => ?_
  rw [StagedEdits.getElem?_seen, StagedEdits.rowInTurn, edits_record, List.foldl_append,
    KeyedEdit.stagedOn_singleton, ← StagedEdits.rowInTurn, ← StagedEdits.getElem?_seen]
  by_cases own : keyed.table.name = table.name
  · rw [if_pos own, ByName.getElem?_alter]
    by_cases same : keyed.rowKey = rowKey
    · rw [if_pos ⟨own, same⟩, if_pos same, same]
      rfl
    · rw [if_neg fun both => same both.2, if_neg same]
      rfl
  · rw [if_neg own, if_neg fun both => own both.1]
    rfl

/-- Whether what is staged agrees with a tally of a table: the rows and the running count are those of the
tally, the count is kept in the limit, and a table that was never counted has not drifted. -/
structure IsTallied (staged : Staged) (table : TableSchema) (limit : Nat) (rows : ByName Fields)
    (tally : RowTally) : Prop where
  rows_eq : tally.rows = staged.requests.seen table rows
  count_eq : tally.count = staged.countOver rows table
  balanced : tally.IsBalanced
  bounded : tally.count ≤ max limit (Store.tableRows table rows).size
  undrifted : staged.counts[table.name]? = none → tally.drift = 0

private theorem IsTallied.of_held {staged : Staged} {table : TableSchema} {limit : Nat}
    {rows : ByName Fields} {tally : RowTally} (balanced : tally.IsBalanced)
    (rows_eq : tally.rows = staged.requests.seen table rows)
    (bounded : tally.count ≤ max limit (Store.tableRows table rows).size)
    (held : staged.counts[table.name]? = some tally.count) :
    staged.IsTallied table limit rows tally where
  rows_eq := rows_eq
  count_eq := by rw [countOver, held, Option.getD_some]
  balanced := balanced
  bounded := bounded
  undrifted unheld := by
    rw [held] at unheld
    cases unheld

/-- Staging an edit is adding it to the tally of its table. -/
theorem IsTallied.take {staged later : Staged} {keyed : KeyedEdit} {limit : Nat}
    {rows : ByName Fields} {tally : RowTally} (limited : keyed.table.maxElements = some limit)
    (tallied : staged.IsTallied keyed.table limit rows tally)
    (taken : staged.Takes rows keyed later) :
    later.IsTallied keyed.table limit rows (tally.add keyed) := by
  obtain ⟨world, _, rfl, added⟩ := taken.added
  obtain ⟨counted, _, passed, rfl⟩ := eq_record_of_addContext added
  have balanced := tallied.balanced.add keyed
  have seen : (counted.record keyed).requests.seen keyed.table world.store.rows =
      tally.rowsAfter keyed := by
    rw [seen_record, if_pos rfl, requests_of_countRow passed, ← tallied.rows_eq]
    rfl
  have bounded := tallied.bounded
  rcases cases_of_countRow passed with ⟨rfl, unlimited | ⟨stays, keeps⟩⟩ |
    ⟨_, count, _, limited', asked, ⟨removes, rfl⟩ | ⟨creates, small, rfl⟩⟩
  · rw [limited] at unlimited
    cases unlimited
  · rw [RowTally.add_of_keeps (not_or.mpr ⟨keeps, mt keyed.removesRow_iff.mpr stays⟩)] at balanced ⊢
    exact ⟨seen.symm, tallied.count_eq, balanced, bounded, tallied.undrifted⟩
  · cases (eq_of_count asked).trans tallied.count_eq.symm
    rw [RowTally.add_of_removes (keyed.removesRow_iff.mp removes)] at balanced ⊢
    exact .of_held balanced seen.symm (by simp only; omega) (Std.ExtTreeMap.getElem?_insert_self ..)
  · cases (eq_of_count asked).trans tallied.count_eq.symm
    cases limited.symm.trans limited'
    rw [RowTally.add_of_creates creates] at balanced ⊢
    exact .of_held balanced seen.symm (by simp only; omega) (Std.ExtTreeMap.getElem?_insert_self ..)

private theorem IsTallied.keep {staged later : Staged} {keyed : KeyedEdit} {table : TableSchema} {limit : Nat}
    {rows : ByName Fields} {tally : RowTally} (other : keyed.table.name ≠ table.name)
    (tallied : staged.IsTallied table limit rows tally) (taken : staged.Takes rows keyed later) :
    later.IsTallied table limit rows tally := by
  obtain ⟨world, _, rfl, added⟩ := taken.added
  obtain ⟨counted, _, passed, rfl⟩ := eq_record_of_addContext added
  have seen : (counted.record keyed).requests.seen table world.store.rows =
      staged.requests.seen table world.store.rows := by
    rw [seen_record, if_neg other, requests_of_countRow passed]
  have counts : (counted.record keyed).counts[table.name]? = staged.counts[table.name]? := by
    rcases cases_of_countRow passed with ⟨rfl, _⟩ | ⟨_, _, _, _, _, ⟨_, rfl⟩ | ⟨_, _, rfl⟩⟩
    · rfl
    · exact (ByName.getElem?_insert _ _ _ _).trans (if_neg other)
    · exact (ByName.getElem?_insert _ _ _ _).trans (if_neg other)
  have count : (counted.record keyed).countOver world.store.rows table =
      staged.countOver world.store.rows table := by
    unfold countOver
    rw [counts]
  exact ⟨seen ▸ tallied.rows_eq, count ▸ tallied.count_eq, tallied.balanced, tallied.bounded,
    counts ▸ tallied.undrifted⟩

/-- Staging an edit of a run is adding it to the tally of the run. -/
theorem IsTallied.concat {schema : Schema} {staged later : Staged} {earlier : List KeyedEdit}
    {keyed : KeyedEdit} {table : TableSchema} {limit : Nat} {rows : ByName Fields}
    (known : schema.table? table.name = some table) (limited : table.maxElements = some limit)
    (isSound : keyed.IsSound schema)
    (tallied : staged.IsTallied table limit rows (.ofEdits table rows earlier))
    (taken : staged.Takes rows keyed later) :
    later.IsTallied table limit rows (.ofEdits table rows (earlier ++ [keyed])) := by
  rw [RowTally.ofEdits_concat]
  by_cases own : keyed.table.name = table.name
  · cases Schema.eq_of_name_eq isSound.known known own
    rw [if_pos rfl]
    exact tallied.take limited taken
  · rw [if_neg own]
    exact tallied.keep own taken

/-- An edit that is checked and acts does not make the running count drift. -/
theorem IsTallied.drift_add {schema : Schema} {staged later : Staged} {keyed : KeyedEdit}
    {limit : Nat} {rows : ByName Fields} {tally : RowTally}
    (known : schema.table? keyed.table.name = some keyed.table)
    (stored : staged.ChangesStored schema rows) (checked : keyed.edit.IsChecked)
    (tallied : staged.IsTallied keyed.table limit rows tally)
    (taken : staged.Takes rows keyed later) (undrifted : tally.drift = 0) :
    (tally.add keyed).drift = 0 := by
  obtain ⟨world, _, rfl, passed⟩ := taken.checked checked.1
  -- What the check takes to be there is there.
  have there : keyed.rowKey ∈ tally.rows ↔ keyed.edit.operation ≠ .create := by
    rw [← isThereOver_of_checkExistence passed checked.2, stored.isThereOver_eq known,
      ← StagedEdits.getElem?_seen, ← tallied.rows_eq]
    exact Std.ExtTreeMap.mem_iff_isSome_getElem?
  rcases keyed.staged.makes_removes_or_keeps with ⟨creates, _⟩ | ⟨removes, _⟩ | ⟨keeps, _⟩
  · rw [RowTally.add_of_creates creates, if_neg fun own => there.mp own creates, undrifted]
    rfl
  · have held : keyed.rowKey ∈ tally.rows := there.mpr fun creates => by
      rw [show keyed.edit.operation = .delete from removes.1] at creates
      cases creates
    have filled := ByName.size_erase_lt held
    have balanced : (tally.count : Int) = tally.rows.size + tally.drift := tallied.balanced
    rw [RowTally.add_of_removes removes, if_pos held]
    simp only
    omega
  · rw [RowTally.add_of_keeps keeps]
    exact undrifted

end Staged

namespace Session

namespace Accepts

variable {engine : Engine} {rows : ByName Fields} {batches : List (List Edit)} {session : Session}
  {table : TableSchema} {limit : Nat}

private theorem isTallied (sound : engine.setting.schema.IsSound) (run : Accepts engine rows batches session)
    (known : engine.setting.schema.table? table.name = some table)
    (limited : table.maxElements = some limit) :
    session.staged.IsTallied table limit rows
      (RowTally.ofEdits table rows (batches.flatMap engine.setting.schema.inOrder)) := by
  refine run.invariant sound (fun earlier staged =>
    staged.IsTallied table limit rows (RowTally.ofEdits table rows earlier)) ?_ ?_
  · exact ⟨rfl, rfl, by simp [RowTally.IsBalanced, RowTally.ofEdits], le_max_right _ _,
      fun _ => rfl⟩
  · intro keyed earlier staged later isSound taken tallied
    exact tallied.concat known limited isSound taken

/-- After every run, a table with a limit has as many rows as its running count says, if that is held, and
no more than its limit or than it had in the store, exactly if the running count has not drifted. -/
theorem keepsLimit_iff [PatternReader] {modules : List ModuleDecl} {delimiter : String}
    (built : Schema.build modules delimiter = .ok engine.setting.schema)
    (run : Accepts engine rows batches session)
    (known : engine.setting.schema.table? table.name = some table)
    (limited : table.maxElements = some limit) :
    let seen := session.staged.requests.seen table rows
    seen.size ≤ max limit (Store.tableRows table rows).size ∧
        (∀ count, session.staged.counts[table.name]? = some count → count = seen.size) ↔
      (RowTally.ofEdits table rows (batches.flatMap engine.setting.schema.inOrder)).drift = 0 := by
  intro seen
  have tallied := run.isTallied (Schema.isSound_of_build built) known limited
  generalize RowTally.ofEdits table rows (batches.flatMap engine.setting.schema.inOrder) = tally
    at tallied ⊢
  have balanced : (tally.count : Int) = tally.rows.size + tally.drift := tallied.balanced
  have counted := tallied.count_eq
  have bounded := tallied.bounded
  rw [show seen = tally.rows from tallied.rows_eq.symm]
  unfold Staged.countOver at counted
  cases held : session.staged.counts[table.name]? with
  | none =>
      have undrifted := tallied.undrifted held
      refine iff_of_true ⟨by omega, fun _ given => ?_⟩ undrifted
      cases given
  | some count =>
      rw [held, Option.getD_some] at counted
      constructor
      · rintro ⟨_, right⟩
        have same := right count rfl
        omega
      · intro undrifted
        refine ⟨by omega, fun _ given => ?_⟩
        cases given
        omega

/-- If every edit is checked and acts, running counts do not drift. -/
theorem drift_eq_zero (sound : engine.setting.schema.IsSound)
    (run : Accepts engine rows batches session)
    (checked : ∀ edits ∈ batches, ∀ edit ∈ edits, edit.IsChecked)
    (known : engine.setting.schema.table? table.name = some table)
    (limited : table.maxElements = some limit) :
    (RowTally.ofEdits table rows (batches.flatMap engine.setting.schema.inOrder)).drift = 0 := by
  have kept := run.invariant sound (fun earlier staged =>
    staged.IsTallied table limit rows (RowTally.ofEdits table rows earlier) ∧
      ((∀ one ∈ earlier, one.edit.IsChecked) →
        staged.ChangesStored engine.setting.schema rows ∧
          (RowTally.ofEdits table rows earlier).drift = 0)) ?_ ?_
  · refine (kept.2 fun one member => ?_).2
    obtain ⟨edits, given, inside⟩ := List.mem_flatMap.mp member
    exact checked edits given one.edit (Schema.edit_mem_of_mem_inOrder sound inside)
  · exact ⟨isTallied sound (.start "") known limited, fun _ =>
      ⟨fun _ _ _ touched _ => absurd rfl touched, rfl⟩⟩
  · intro keyed earlier staged later isSound taken ⟨tallied, undrifted⟩
    refine ⟨tallied.concat known limited isSound taken, fun all => ?_⟩
    rw [List.forall_mem_append, List.forall_mem_singleton] at all
    obtain ⟨stored, before⟩ := undrifted all.1
    refine ⟨taken.changesStored isSound all.2 stored, ?_⟩
    rw [RowTally.ofEdits_concat]
    by_cases own : keyed.table.name = table.name
    · cases Schema.eq_of_name_eq isSound.known known own
      rw [if_pos rfl]
      exact tallied.drift_add isSound.known stored all.2 taken before
    · rwa [if_neg own]

end Accepts

/-- A table that holds one row. -/
def singleRowTable : TableDecl :=
  { name := "LOG", keyPattern := "LOG|\x7bhost\x7d", maxElements := some 1 }

def singleRowEngine : Engine :=
  Engine.ofModules [{ name := "m", tables := [singleRowTable] }]

/-- A world whose store holds that row. -/
def singleRowWorld : World where
  store := { database := 0, rows := (∅ : ByName Fields).insert "LOG|a" ∅ }

/-- A batch that deletes a missing row as context of others, and one that creates a row. -/
def deleteMissingThenCreate : List (List Edit) :=
  [[{ validateNow := false, operation := .delete, key := "LOG|b" }],
    [{ operation := .create, key := "LOG|c" }]]

/-- The deletion of a missing row makes room for a row too many. -/
theorem deleteMissingThenCreate_exceedsLimit :
    ∃ table session, singleRowEngine.setting.schema.table? "LOG" = some table ∧
      table.maxElements = some 1 ∧ (Store.tableRows table singleRowWorld.store.rows).size = 1 ∧
      Accepts singleRowEngine singleRowWorld.store.rows deleteMissingThenCreate session ∧
      session.staged.counts["LOG"]? = some 1 ∧
      (session.staged.requests.seen table singleRowWorld.store.rows).size = 2 := by
  obtain ⟨session, run, counted, seen⟩ : ∃ session,
      Accepts singleRowEngine singleRowWorld.store.rows deleteMissingThenCreate session ∧
      session.staged.counts["LOG"]? = some 1 ∧
      (singleRowEngine.setting.schema.table? "LOG").any fun table =>
        table.maxElements = some 1 ∧ (Store.tableRows table singleRowWorld.store.rows).size = 1 ∧
        (session.staged.requests.seen table singleRowWorld.store.rows).size = 2 :=
    ⟨_, .batch (.batch (.start "s") _ singleRowWorld rfl (by decide +kernel)) _ singleRowWorld rfl
      (by decide +kernel), by decide +kernel, by decide +kernel⟩
  obtain ⟨table, known, facts⟩ := (Option.any_eq_true _ _).mp seen
  obtain ⟨limited, stored, seen⟩ := of_decide_eq_true facts
  exact ⟨table, session, known, limited, stored, run, counted, seen⟩

/-- A batch that deletes the row, and one that creates another one. -/
def deleteThenCreate : List (List Edit) :=
  [[{ operation := .delete, key := "LOG|a" }], [{ operation := .create, key := "LOG|c" }]]

theorem deleteThenCreate_keepsLimit :
    ∃ table session, singleRowEngine.setting.schema.table? table.name = some table ∧
      table.maxElements = some 1 ∧
      Accepts singleRowEngine singleRowWorld.store.rows deleteThenCreate session ∧
      (session.staged.requests.seen table singleRowWorld.store.rows).size ≤
        max 1 (Store.tableRows table singleRowWorld.store.rows).size := by
  have faultless : (Schema.build [{ name := "m", tables := [singleRowTable] }]
      Schema.usualDelimiter).isOk := by
    decide +kernel
  have facts : (singleRowEngine.setting.schema.table? "LOG").any fun table =>
      table.name = "LOG" ∧ table.maxElements = some 1 ∧
        (RowTally.ofEdits table singleRowWorld.store.rows
          (deleteThenCreate.flatMap singleRowEngine.setting.schema.inOrder)).drift = 0 := by
    decide +kernel
  obtain ⟨table, known, facts⟩ := (Option.any_eq_true _ _).mp facts
  obtain ⟨named, limited, undrifted⟩ := of_decide_eq_true facts
  have known : singleRowEngine.setting.schema.table? table.name = some table := named.symm ▸ known
  obtain ⟨session, run⟩ : ∃ session,
      Accepts singleRowEngine singleRowWorld.store.rows deleteThenCreate session :=
    ⟨_, .batch (.batch (.start "s") _ singleRowWorld rfl (by decide +kernel)) _ singleRowWorld rfl
      (by decide +kernel)⟩
  exact ⟨table, session, known, limited, run, ((run.keepsLimit_iff
    (Schema.build_eq_ofModules faultless) known limited).mpr undrifted).1⟩

end Session

end ConfigVetting
