import ConfigVetting.Proofs.Maps
import ConfigVetting.Proofs.Staging.NetState
import ConfigVetting.Schema.Table
import Mathlib.Data.List.Induction

/-! # Rows edit by edit

One more edit acts on the row that the net effect of the earlier ones leaves, name by name
(`ConfigVetting.StagedEdits.heldUnder_rowBy_concat`). So what a row holds under a name is what the last
edit set there, or was there before it (`ConfigVetting.StagedEdit.set_or_kept`).
-/

namespace ConfigVetting

/-- What a row that may be absent holds under a name. -/
def heldUnder (name : String) (row : Option Fields) : Option String :=
  row.bind fun fields => fields[name]?

namespace Patch

/-- What a patch leaves under a name depends on what the row held under it. -/
theorem getElem?_apply_congr {patch : Patch} (regular : patch.IsRegular) {first second : Fields}
    {name : String} (real : name ≠ placeholder) (same : first[name]? = second[name]?) :
    (patch.apply first)[name]? = (patch.apply second)[name]? := by
  rw [getElem?_apply regular first real, getElem?_apply regular second real]
  apply Fields.getElem?_laid_congr real
  · intro field member
    exact (regular.set_sound field (Fields.mem_toList_only.mp member).1).1
  · by_cases gone : baseName name ∈ patch.removed
    · rw [if_pos gone, if_pos gone]
    · rw [if_neg gone, if_neg gone, same]

theorem ne_placeholder_of_baseName {name : String} (real : baseName name ≠ placeholder) :
    name ≠ placeholder ∧ name ≠ listSpelling placeholder := by
  refine ⟨?_, ?_⟩
  · rintro rfl
    exact real (baseName_of_unmarked rfl)
  · rintro rfl
    exact real (baseName_listSpelling placeholder)

/-- The composition of two patches does what they do one after the other under every name but those of
the placeholder. -/
theorem getElem?_apply_andThen {first second : Patch} (regularFirst : first.IsRegular)
    (regularSecond : second.IsRegular) (row : Fields) {name : String}
    (real : baseName name ≠ placeholder) :
    ((first.andThen second).apply row)[name]? = (second.apply (first.apply row))[name]? := by
  obtain ⟨plain, listed⟩ := ne_placeholder_of_baseName real
  have same : row[name]? = (row.erase (listSpelling placeholder))[name]? := by
    rw [Std.ExtTreeMap.getElem?_erase]
    simp [listed.symm]
  have absent : listSpelling placeholder ∉ row.erase (listSpelling placeholder) := by
    simp
  calc ((first.andThen second).apply row)[name]?
      = ((first.andThen second).apply (row.erase (listSpelling placeholder)))[name]? :=
        getElem?_apply_congr (regularFirst.andThen regularSecond) plain same
    _ = (second.apply (first.apply (row.erase (listSpelling placeholder))))[name]? :=
        apply_andThen regularFirst regularSecond (Or.inr absent) name plain
    _ = (second.apply (first.apply row))[name]? :=
        getElem?_apply_congr regularSecond plain
          (getElem?_apply_congr regularFirst plain same).symm

end Patch

namespace RowState

/-- A row is there after two states if it is after the one and then the other. -/
theorem isSome_apply_andThen (first second : RowState) (stored : Option Fields) :
    ((first.andThen second).apply stored).isSome = (second.apply (first.apply stored)).isSome := by
  cases second with
  | present fields => cases first <;> rfl
  | deleted => cases first <;> rfl
  | overlay patch => cases first <;> simp [andThen, apply]

private theorem heldUnder_apply_andThen {first second : RowState} (regularFirst : first.IsRegular)
    (regularSecond : second.IsRegular) (stored : Option Fields) {name : String}
    (real : baseName name ≠ placeholder) :
    heldUnder name ((first.andThen second).apply stored) =
      heldUnder name (second.apply (first.apply stored)) := by
  cases second with
  | present fields => cases first <;> rfl
  | deleted => cases first <;> rfl
  | overlay patch =>
      cases first with
      | present fields => rfl
      | deleted => rfl
      | overlay earlier =>
          cases stored with
          | none => rfl
          | some row => exact Patch.getElem?_apply_andThen regularFirst regularSecond row real

end RowState

namespace Fields

/-- What a row holds under a name after fields are put is one of them, or was there before. -/
theorem set_or_kept_of_laid {fields : List (String × String)} {row : Fields} {name value : String}
    (real : name ≠ placeholder) (once : ∀ field ∈ fields, IsMarkedOnce field.1)
    (held : (row.laid fields)[name]? = some value) :
    (name, value) ∈ fields ∨ row[name]? = some value ∧ ∀ field ∈ fields, field.1 ≠ name := by
  induction fields generalizing row with
  | nil => exact Or.inr ⟨held, fun _ member => absurd member List.not_mem_nil⟩
  | cons field fields ih =>
      rw [List.forall_mem_cons] at once
      rcases ih once.2 held with later | ⟨before, others⟩
      · exact Or.inl (List.mem_cons_of_mem _ later)
      · rw [getElem?_put _ _ once.1 real] at before
        by_cases standIn : field.1 = placeholder
        · rw [if_pos standIn] at before
          refine Or.inr ⟨before, List.forall_mem_cons.mpr ⟨?_, others⟩⟩
          rw [standIn]
          exact real.symm
        · rw [if_neg standIn] at before
          by_cases own : name = field.1
          · rw [if_pos own, Option.some.injEq] at before
            subst own before
            exact Or.inl List.mem_cons_self
          · rw [if_neg own] at before
            by_cases spelled : baseName name = baseName field.1
            · rw [if_pos spelled] at before
              cases before
            · rw [if_neg spelled] at before
              exact Or.inr ⟨before, List.forall_mem_cons.mpr ⟨Ne.symm own, others⟩⟩

end Fields

namespace StagedEdit

/-- Whether an edit removes its row. -/
def Removes (edit : StagedEdit) : Prop :=
  edit.operation = .delete ∧ edit.fields.areNone = true

instance (edit : StagedEdit) : Decidable edit.Removes :=
  inferInstanceAs (Decidable (_ ∧ _))

/-- Whether a row is there or not after an edit, whatever it was before. -/
def Settles (edit : StagedEdit) : Prop :=
  edit.operation = .create ∨ edit.Removes

instance (edit : StagedEdit) : Decidable edit.Settles :=
  inferInstanceAs (Decidable (_ ∨ _))

/-- An edit makes its row, removes it, or leaves it there or not as it was. -/
theorem makes_removes_or_keeps (edit : StagedEdit) :
    (edit.operation = .create ∧ edit.state = .present edit.fields ∧
      ∀ row, edit.applyTo row = some edit.fields) ∨
    (edit.Removes ∧ edit.state = .deleted ∧ ∀ row, edit.applyTo row = none) ∨
    (¬ edit.Settles ∧ (∃ patch, edit.state = .overlay patch) ∧
      ∀ row, (edit.applyTo row).isSome = row.isSome) := by
  obtain ⟨operation, fields⟩ := edit
  cases operation with
  | create => exact Or.inl ⟨rfl, rfl, fun _ => rfl⟩
  | update =>
      exact Or.inr (Or.inr ⟨by simp [Settles, Removes], ⟨_, rfl⟩, fun row => Option.isSome_map⟩)
  | none =>
      exact Or.inr (Or.inr ⟨by simp [Settles, Removes], ⟨_, rfl⟩, fun row => Option.isSome_map⟩)
  | delete =>
      right
      by_cases whole : fields.areNone = true
      · refine Or.inl ⟨⟨rfl, whole⟩, ?_, fun row => ?_⟩
        · simp only [state, RowState.ofEdit, whole, ↓reduceIte]
        · simp only [applyTo, whole, ↓reduceIte]
      · refine Or.inr ⟨by simp [Settles, Removes, whole], ⟨.removing fields.keys, ?_⟩, fun row => ?_⟩
        · simp only [state, RowState.ofEdit, whole, Bool.false_eq_true, ↓reduceIte]
        · simp only [applyTo, whole, Bool.false_eq_true, ↓reduceIte, Option.isSome_map]

/-- A row that is there after an edit was created by it, or there before. -/
theorem created_or_kept {edit : StagedEdit} {row : Option Fields}
    (there : (edit.state.apply row).isSome) : edit.operation = .create ∨ row.isSome := by
  obtain ⟨operation, fields⟩ := edit
  cases operation with
  | create => exact Or.inl rfl
  | update => exact Or.inr (by simpa [state, RowState.ofEdit, RowState.apply] using there)
  | none => exact Or.inr (by simpa [state, RowState.ofEdit, RowState.apply] using there)
  | delete =>
      right
      by_cases removes : fields.areNone
      · simp [state, RowState.ofEdit, RowState.apply, removes] at there
      · simpa [state, RowState.ofEdit, RowState.apply, removes] using there

/-- What a row holds under a name after an edit was set by it, or held before and not set. -/
theorem set_or_kept {edit : StagedEdit} (regular : edit.IsRegular) {row : Option Fields}
    {name value : String} (real : name ≠ placeholder)
    (held : heldUnder name (edit.state.apply row) = some value) :
    (edit.operation ≠ .delete ∧ edit.fields[name]? = some value) ∨
      heldUnder name row = some value ∧ (edit.operation ≠ .delete → edit.fields[name]? = none) := by
  have once : ∀ name ∈ edit.fields.keys, IsMarkedOnce name := fun name member =>
    (regular name member).1
  have laid : ∀ before : Fields, (before.laid edit.fields.toList)[name]? = some value →
      edit.fields[name]? = some value ∨ before[name]? = some value ∧ edit.fields[name]? = none := by
    intro before found
    have listed : ∀ field ∈ edit.fields.toList, IsMarkedOnce field.1 := fun field member =>
      once field.1 (Std.ExtTreeMap.mem_keys.mpr (Std.ExtTreeMap.mem_iff_isSome_getElem?.mpr (by
        rw [Std.ExtTreeMap.mem_toList_iff_getElem?_eq_some.mp member]
        rfl)))
    rcases Fields.set_or_kept_of_laid real listed found with own | ⟨kept, others⟩
    · exact Or.inl (Std.ExtTreeMap.mem_toList_iff_getElem?_eq_some.mp own)
    · refine Or.inr ⟨kept, ?_⟩
      cases set : edit.fields[name]? with
      | none => rfl
      | some other => exact absurd rfl (others (name, other)
          (Std.ExtTreeMap.mem_toList_iff_getElem?_eq_some.mpr set))
  obtain ⟨operation, fields⟩ := edit
  cases operation with
  | create => exact Or.inl ⟨nofun, held⟩
  | update =>
      obtain ⟨after, there, found⟩ := Option.bind_eq_some_iff.mp held
      obtain ⟨before, rfl, rfl⟩ := Option.map_eq_some_iff.mp there
      exact (laid before found).imp (fun own => ⟨nofun, own⟩) fun kept => ⟨kept.1, fun _ => kept.2⟩
  | none =>
      obtain ⟨after, there, found⟩ := Option.bind_eq_some_iff.mp held
      obtain ⟨before, rfl, rfl⟩ := Option.map_eq_some_iff.mp there
      exact (laid before found).imp (fun own => ⟨nofun, own⟩) fun kept => ⟨kept.1, fun _ => kept.2⟩
  | delete =>
      refine Or.inr ⟨?_, fun acts => absurd rfl acts⟩
      by_cases removes : fields.areNone
      · simp [state, RowState.ofEdit, RowState.apply, removes, heldUnder] at held
      · simp only [state, RowState.ofEdit, RowState.apply, removes] at held
        obtain ⟨after, there, found⟩ := Option.bind_eq_some_iff.mp held
        obtain ⟨before, rfl, rfl⟩ := Option.map_eq_some_iff.mp there
        rw [Patch.apply_removing once before name real, Fields.getElem?_withoutAll _ once] at found
        by_cases gone : baseName name ∈ fields.keys.map baseName
        · rw [if_pos gone] at found
          cases found
        · rw [if_neg gone] at found
          exact found

end StagedEdit

namespace StagedEdits

/-- The row that a stored one becomes by the net effect of some edits. -/
def rowBy (edits : List StagedEdit) (stored : Option Fields) : Option Fields :=
  match netState edits with
  | some state => state.apply stored
  | none => stored

/-- The staged rows of a table have different keys. -/
theorem nodup_rows (staged : StagedEdits) (table : String) :
    ((staged.rows table).map Prod.fst).Nodup := by
  have part : ∀ entries : List (String × List StagedEdit),
      ((entries.filterMap fun entry => (netState entry.2).map fun state => (entry.1, state)).map
        Prod.fst).Sublist (entries.map Prod.fst) := by
    intro entries
    induction entries with
    | nil => exact List.Sublist.slnil
    | cons entry entries ih =>
        rw [List.filterMap_cons]
        cases netState entry.2 with
        | none => exact ih.cons _
        | some state => exact ih.cons_cons _
  exact (part _).nodup (ByName.nodup_toList _)

/-- The staged rows of a table are those with a net effect. -/
theorem mem_rows_iff {staged : StagedEdits} {table rowKey : String} {state : RowState} :
    (rowKey, state) ∈ staged.rows table ↔ staged.state? table rowKey = some state := by
  unfold rows state? edits
  rw [List.mem_filterMap]
  constructor
  · rintro ⟨⟨own, changes⟩, member, found⟩
    obtain ⟨net, folded, same⟩ := Option.map_eq_some_iff.mp found
    cases same
    rw [Std.ExtTreeMap.mem_toList_iff_getElem?_eq_some.mp member, Option.getD_some]
    exact folded
  · intro net
    cases stored : (staged.tables[table]?.getD ∅)[rowKey]? with
    | none =>
        rw [stored] at net
        cases net
    | some changes =>
        rw [stored, Option.getD_some] at net
        refine ⟨(rowKey, changes), Std.ExtTreeMap.mem_toList_iff_getElem?_eq_some.mpr stored, ?_⟩
        simp only [net, Option.map_some]

/-- The row of a table that a session sees: what the stored one becomes by the net effect of its staged
edits. -/
def view (staged : StagedEdits) (rows : ByName Fields) (table : TableSchema) (rowKey : String) :
    Option Fields :=
  staged.rowAfter table.name rowKey rows[table.storeKey rowKey]?

/-- A row that is seen without being stored is one that was staged. -/
theorem exists_row_of_view {staged : StagedEdits} {rows : ByName Fields} {table : TableSchema}
    {rowKey : String} {fields : Fields} (seen : staged.view rows table rowKey = some fields)
    (missing : rows[table.storeKey rowKey]? = none) :
    ∃ row ∈ staged.rows table.name, row.1 = rowKey ∧ row.2.apply none = some fields := by
  unfold view rowAfter at seen
  rw [missing] at seen
  cases net : staged.state? table.name rowKey with
  | none =>
      rw [net] at seen
      cases seen
  | some state =>
      rw [net] at seen
      exact ⟨(rowKey, state), mem_rows_iff.mpr net, rfl, seen⟩

/-- The net state takes in one edit after another. -/
theorem netState_concat (edits : List StagedEdit) (edit : StagedEdit) :
    netState (edits ++ [edit]) =
      some (((netState edits).map fun state => state.andThen edit.state).getD edit.state) := by
  cases edits with
  | nil => rfl
  | cons first rest =>
      simp only [List.cons_append, netState, List.foldl_append]
      rfl

/-- The net state of regular edits is regular. -/
theorem isRegular_netState {edits : List StagedEdit} (regular : ∀ edit ∈ edits, edit.IsRegular)
    {state : RowState} (net : netState edits = some state) : state.IsRegular := by
  induction edits using List.reverseRecOn generalizing state with
  | nil => cases net
  | append_singleton edits edit ih =>
      rw [netState_concat, Option.some.injEq] at net
      have last := RowState.isRegular_state (regular edit (List.mem_append_right _ List.mem_cons_self))
      cases earlier : netState edits with
      | none =>
          rw [earlier] at net
          exact net ▸ last
      | some before =>
          rw [earlier] at net
          have regularBefore := ih (fun one member => regular one (List.mem_append_left _ member))
            earlier
          exact net ▸ regularBefore.andThen last

/-- What the net effect of edits tells of the row that they make of a stored one. -/
def Tells (edits : List StagedEdit) (stored : Option Fields) : Option RowState → Prop
  | none => edits = []
  | some (.present _) =>
      (edits.foldl StagedEdit.applyTo stored).isSome = true ∧ ∃ edit ∈ edits, edit.Settles
  | some .deleted =>
      (edits.foldl StagedEdit.applyTo stored).isSome = false ∧ ∃ edit ∈ edits, edit.Settles
  | some (.overlay _) =>
      (edits.foldl StagedEdit.applyTo stored).isSome = stored.isSome ∧ edits ≠ [] ∧
        ∀ edit ∈ edits, ¬ edit.Settles

/-- The net state tells what each name holds after the edits. -/
theorem tells_netState (edits : List StagedEdit) (stored : Option Fields) :
    Tells edits stored (netState edits) := by
  induction edits using List.reverseRecOn with
  | nil => rfl
  | append_singleton edits edit ih =>
      have last : edit ∈ edits ++ [edit] := List.mem_append_right _ List.mem_cons_self
      have settledBefore : (∃ one ∈ edits, one.Settles) → ∃ one ∈ edits ++ [edit], one.Settles :=
        fun ⟨one, member, settles⟩ => ⟨one, List.mem_append_left _ member, settles⟩
      rw [netState_concat]
      rcases edit.makes_removes_or_keeps with ⟨creates, net, after⟩ | ⟨removes, net, after⟩ |
        ⟨keeps, ⟨patch, net⟩, after⟩
      · have made : ((netState edits).map fun state => state.andThen edit.state).getD edit.state =
            .present edit.fields := by
          rw [net]
          rcases netState edits with _ | ⟨⟩ | ⟨⟩ | ⟨⟩ <;> rfl
        rw [made]
        refine ⟨?_, edit, last, Or.inl creates⟩
        rw [List.foldl_concat, after]
        rfl
      · have gone : ((netState edits).map fun state => state.andThen edit.state).getD edit.state =
            .deleted := by
          rw [net]
          rcases netState edits with _ | ⟨⟩ | ⟨⟩ | ⟨⟩ <;> rfl
        rw [gone]
        refine ⟨?_, edit, last, Or.inr removes⟩
        rw [List.foldl_concat, after]
        rfl
      · -- What only changes the row leaves what the earlier edits tell.
        have onlyKeeps : (∀ one ∈ edits, ¬ one.Settles) → ∀ one ∈ edits ++ [edit], ¬ one.Settles := by
          intro earlier one member
          rcases List.mem_append.mp member with before | own
          · exact earlier one before
          · rwa [List.mem_singleton.mp own]
        rw [net]
        generalize netState edits = before at ih
        rcases before with _ | fields | earlier | _
        · cases (show edits = [] from ih)
          exact ⟨after stored, List.cons_ne_nil _ _, onlyKeeps fun _ member => absurd member
            List.not_mem_nil⟩
        · refine ⟨?_, settledBefore ih.2⟩
          rw [List.foldl_concat, after]
          exact ih.1
        · refine ⟨?_, List.append_ne_nil_of_right_ne_nil _ (List.cons_ne_nil _ _), onlyKeeps ih.2.2⟩
          rw [List.foldl_concat, after]
          exact ih.1
        · refine ⟨?_, settledBefore ih.2⟩
          rw [List.foldl_concat, after]
          exact ih.1

/-- Edits that only change a row do not create it. -/
theorem not_creates_of_overlay {edits : List StagedEdit} {patch : Patch}
    (net : netState edits = some (.overlay patch)) : ∀ edit ∈ edits, edit.operation ≠ .create := by
  induction edits using List.reverseRecOn generalizing patch with
  | nil => exact fun edit member => absurd member List.not_mem_nil
  | append_singleton edits last ih =>
      rw [netState_concat, Option.some.injEq] at net
      have lastChanges : last.operation ≠ .create := by
        intro creates
        have made : last.state = .present last.fields := by
          rw [StagedEdit.state, creates]
          rfl
        rw [made] at net
        cases earlier : netState edits with
        | none =>
            rw [earlier] at net
            cases net
        | some state =>
            rw [earlier] at net
            cases state <;> cases net
      intro edit member
      rcases List.mem_append.mp member with before | own
      · cases earlier : netState edits with
        | none =>
            cases edits with
            | nil => cases before
            | cons first rest => cases earlier
        | some state =>
            rw [earlier, Option.map_some, Option.getD_some] at net
            cases state with
            | overlay first => exact ih earlier edit before
            | present fields => cases made : last.state <;> rw [made] at net <;> cases net
            | deleted => cases made : last.state <;> rw [made] at net <;> cases net
      · rw [List.mem_singleton.mp own]
        exact lastChanges

/-- Whether a row is stored or was created by staged edits. -/
def IsLive (staged : StagedEdits) (rows : ByName Fields) (table : TableSchema) (rowKey : String) :
    Prop :=
  (rows[table.storeKey rowKey]?).isSome ∨
    ∃ edit ∈ staged.edits table.name rowKey, edit.operation = .create

/-- A live row that the net effect of its edits does not remove is seen. -/
theorem IsLive.isSome_view {staged : StagedEdits} {rows : ByName Fields} {table : TableSchema}
    {rowKey : String} (live : staged.IsLive rows table rowKey)
    (kept : staged.state? table.name rowKey ≠ some .deleted) :
    (staged.view rows table rowKey).isSome := by
  unfold view rowAfter
  cases net : staged.state? table.name rowKey with
  | none =>
      rcases live with stored | ⟨edit, member, _⟩
      · exact stored
      · unfold state? at net
        cases edits : staged.edits table.name rowKey with
        | nil =>
            rw [edits] at member
            cases member
        | cons first rest =>
            rw [edits] at net
            cases net
  | some state =>
      cases state with
      | present fields => rfl
      | deleted => exact absurd net kept
      | overlay patch =>
          rcases live with stored | ⟨edit, member, creates⟩
          · simpa [RowState.apply] using stored
          · exact absurd creates (not_creates_of_overlay net edit member)

/-- One more edit acts on a row that is there or not. -/
theorem isSome_rowBy_concat (edits : List StagedEdit) (edit : StagedEdit) (stored : Option Fields) :
    (rowBy (edits ++ [edit]) stored).isSome = (edit.state.apply (rowBy edits stored)).isSome := by
  unfold rowBy
  rw [netState_concat]
  cases netState edits with
  | none => rfl
  | some state => exact RowState.isSome_apply_andThen state edit.state stored

/-- One more edit acts on what a row holds under a name. -/
theorem heldUnder_rowBy_concat {edits : List StagedEdit} {edit : StagedEdit}
    (regular : ∀ one ∈ edits ++ [edit], one.IsRegular) (stored : Option Fields) {name : String}
    (real : baseName name ≠ placeholder) :
    heldUnder name (rowBy (edits ++ [edit]) stored) =
      heldUnder name (edit.state.apply (rowBy edits stored)) := by
  have last := RowState.isRegular_state (regular edit (List.mem_append_right _ List.mem_cons_self))
  unfold rowBy
  rw [netState_concat]
  cases earlier : netState edits with
  | none => rfl
  | some state =>
      have regularBefore := isRegular_netState
        (fun one member => regular one (List.mem_append_left _ member)) earlier
      exact RowState.heldUnder_apply_andThen regularBefore last stored real

end StagedEdits

end ConfigVetting
