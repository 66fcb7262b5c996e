import ConfigVetting.Proofs.Document.Instances

/-! # Staged rows over list instances

Laying the state of a row over a document that holds a table changes the list instances with a key of
that row and no others. If the document holds no more of them than the row has, what is read back for
such a key afterwards is what the state makes of what was read back before
(`ConfigVetting.Document.exists_lists_of_overlayRow`). So it is for each of several rows laid over a
document one after another, as long as no two of them have a list instance in common
(`ConfigVetting.Document.exists_lists_of_overlayRows`).
-/

namespace ConfigVetting

namespace TableSchema

/-- Whether the list instances of a row are told apart by their keys, and each key is that of a row with
just that list instance. -/
structure IsPatchable (table : TableSchema) (rowKey : String) : Prop where
  once : (table.instanceKeys rowKey).Nodup
  alone : ∀ key ∈ table.instanceKeys rowKey, table.instanceKeys key = [key]

instance (table : TableSchema) (rowKey : String) : Decidable (table.IsPatchable rowKey) :=
  decidable_of_iff ((table.instanceKeys rowKey).Nodup ∧
      ∀ key ∈ table.instanceKeys rowKey, table.instanceKeys key = [key])
    ⟨fun ⟨once, alone⟩ => ⟨once, alone⟩, fun ⟨once, alone⟩ => ⟨once, alone⟩⟩

variable {table : TableSchema} {rowKey : String}

/-- Whether the state of a row can be laid over its list instances. -/
def CanTake (table : TableSchema) (rowKey : String) : RowState → Prop
  | .present _ => table.MergesPlainly rowKey
  | .overlay _ => table.IsPatchable rowKey
  | .deleted => True

instance (state : RowState) : Decidable (table.CanTake rowKey state) :=
  match state with
  | .present _ => inferInstanceAs (Decidable (table.MergesPlainly rowKey))
  | .overlay _ => inferInstanceAs (Decidable (table.IsPatchable rowKey))
  | .deleted => inferInstanceAs (Decidable True)

private theorem exists_expandKey_of_mem {key : String} (inside : key ∈ table.instanceKeys rowKey) :
    ∃ combinations, table.expandKey rowKey = .ok combinations := by
  obtain ⟨combinations, expanded, _⟩ := mem_instanceKeys_iff.mp inside
  exact ⟨combinations, expanded⟩

/-- A row of single-valued key components has no list instance but that of its own key. -/
theorem IsSingle.instanceKeys_of_mem (single : table.IsSingle) (named : table.segments ≠ [])
    {key : String} (inside : key ∈ table.instanceKeys rowKey) :
    key = rowKey ∧ table.instanceKeys rowKey = [rowKey] := by
  obtain ⟨combinations, expanded, _⟩ := mem_instanceKeys_iff.mp inside
  obtain ⟨components, split, _⟩ := expandKey_eq_ok_iff.mp expanded
  have alone : table.instanceKeys rowKey = [rowKey] := by
    rw [instanceKeys_eq (single.expandKey_eq named split), List.map_singleton,
      (splitKey_sound named split).2.2.2]
  exact ⟨List.mem_singleton.mp (alone ▸ inside), alone⟩

/-- Every row of single-valued key components can take any state. -/
theorem IsSingle.canTake (single : table.IsSingle) (named : table.segments ≠ []) (rowKey : String)
    (state : RowState) : table.CanTake rowKey state := by
  have once : (table.instanceKeys rowKey).Nodup := by
    by_cases none : table.instanceKeys rowKey = []
    · rw [none]
      exact List.nodup_nil
    · obtain ⟨key, inside⟩ := List.exists_mem_of_ne_nil _ none
      rw [(single.instanceKeys_of_mem named inside).2]
      exact List.nodup_singleton rowKey
  cases state with
  | present fields => exact Or.inl once
  | deleted => trivial
  | overlay patch =>
      refine ⟨once, fun key inside => ?_⟩
      obtain ⟨rfl, alone⟩ := single.instanceKeys_of_mem named inside
      exact alone

/-- What is read back for a key that has no list instance. -/
theorem readAt_of_nil {nodes : Forest Unit} {key : String} (none : nodes.ofKey key = []) :
    table.readAt nodes key = Option.none := by
  rw [readAt, none]
  rfl

private theorem readAt_of_single {nodes : Forest Unit} {key : String} {node : Tree}
    (single : nodes.ofKey key = [node]) : table.readAt nodes key = some (table.instanceFields node) := by
  rw [readAt, single]
  rfl

/-- What is read at a key depends on the instances under that key alone. -/
theorem readAt_congr {nodes others : Forest Unit} {key : String}
    (same : nodes.ofKey key = others.ofKey key) : table.readAt nodes key = table.readAt others key := by
  rw [readAt, same, readAt]

end TableSchema

namespace Document

open DocumentM

variable {schema : Schema} {table : TableSchema} {document later : Document} {nodes : Forest Unit}
  {rowKey : String}

/-- Patching the list instance of a key leaves those of other keys, and of its own what the patch makes
of it. -/
theorem lists_patchInstance (known : schema.table? table.name = some table) (sound : table.IsSound)
    (lists : document.Lists table nodes) {key : String} (alone : table.instanceKeys key = [key])
    (patch : Patch) :
    ∃ later more, (patchInstance schema table patch key).outcome document = (.ok (), later) ∧
      later.Lists table more ∧ (∀ other, other ≠ key → more.ofKey other = nodes.ofKey other) ∧
      ((nodes.ofKey key).length ≤ 1 → table.readAt more key =
        (table.readAt nodes key).map fun fields => table.settled (patch.apply fields)) := by
  have found := lists.findInstance? key
  unfold patchInstance
  rw [outcome_bind, outcome_get]
  cases there : document.roots.findInstance? table.name key with
  | none =>
      simp only [there]
      rw [there] at found
      have empty : nodes.ofKey key = [] := List.head?_eq_none_iff.mp found.symm
      refine ⟨document, nodes, rfl, lists, fun _ _ => rfl, fun _ => ?_⟩
      rw [TableSchema.readAt_of_nil empty]
      rfl
  | some node =>
      simp only [there]
      rw [there] at found
      obtain ⟨rest, held⟩ : ∃ rest, nodes.ofKey key = node.bare :: rest :=
        List.head?_eq_some_iff.mp found.symm
      have inside : key ∈ table.instanceKeys key := alone ▸ List.mem_singleton_self key
      obtain ⟨combinations, expanded⟩ := TableSchema.exists_expandKey_of_mem inside
      obtain ⟨later, more, put, laterLists, joined⟩ := lists_putRow known (lists.removeInstance key)
        expanded (patch.apply (table.instanceFields node))
      refine ⟨later, more, (outcome_modify_bind _ _ _).trans put, laterLists, fun other different => ?_,
        fun bounded => ?_⟩
      · have outside : other ∉ table.instanceKeys key := by
          rw [alone, List.mem_singleton]
          exact different
        rw [joined, TableSchema.instancesAt_eq_nil_iff.mpr outside, List.foldl_nil,
          Forest.ofKey_eraseP, if_neg different.symm]
      · have last : rest = [] := by
          rw [held, List.length_cons] at bounded
          exact List.eq_nil_of_length_eq_zero (by omega)
        obtain ⟨fresh, single, read⟩ := TableSchema.foldl_joinFirst_instancesAt sound
          (Or.inl (alone ▸ List.nodup_singleton key)) inside
          (patch.apply (table.instanceFields node))
        have own := joined key
        rw [Forest.ofKey_eraseP, if_pos rfl, held, last, List.tail_cons, single] at own
        rw [TableSchema.readAt_of_single own, TableSchema.readAt_of_single (last ▸ held), read,
          TableSchema.instanceFields_bare]
        rfl

/-- Patching the list instances of some keys, each of them once. -/
theorem exists_lists_of_patchInstances (known : schema.table? table.name = some table)
    (sound : table.IsSound) (patch : Patch) {combinations : List (List String)}
    (once : (combinations.map table.instanceKey).Nodup)
    (alone : ∀ key ∈ combinations.map table.instanceKey, table.instanceKeys key = [key])
    (lists : document.Lists table nodes)
    (laid : (combinations.forM fun components =>
      patchInstance schema table patch (table.instanceKey components)).outcome document =
        (.ok (), later)) :
    ∃ more, later.Lists table more ∧
      (∀ key, key ∉ combinations.map table.instanceKey → more.ofKey key = nodes.ofKey key) ∧
      ∀ key ∈ combinations.map table.instanceKey, (nodes.ofKey key).length ≤ 1 →
        table.readAt more key =
          (table.readAt nodes key).map fun fields => table.settled (patch.apply fields) := by
  induction combinations generalizing document nodes with
  | nil =>
      cases laid
      exact ⟨nodes, lists, fun _ _ => rfl, fun _ member => absurd member List.not_mem_nil⟩
  | cons components combinations ih =>
      rw [List.map_cons, List.nodup_cons] at once
      rw [List.map_cons, List.forall_mem_cons] at alone
      obtain ⟨first, middle, patched, middleLists, others, own⟩ :=
        lists_patchInstance known sound lists alone.1 patch
      obtain ⟨_, _, stepped, rest⟩ := outcome_bind_eq_ok_iff.mp laid
      cases patched.symm.trans stepped
      obtain ⟨more, laterLists, kept, read⟩ := ih once.2 alone.2 middleLists rest
      refine ⟨more, laterLists, fun key outside => ?_, fun key member bounded => ?_⟩
      · rw [List.map_cons, List.mem_cons, not_or] at outside
        rw [kept key outside.2, others key outside.1]
      · rw [List.map_cons, List.mem_cons] at member
        rcases member with rfl | later
        · rw [TableSchema.readAt_congr (kept _ once.1), own bounded]
        · have different : key ≠ table.instanceKey components := fun same => once.1 (same ▸ later)
          rw [read key later (others key different ▸ bounded),
            TableSchema.readAt_congr (others key different)]

/-- Laying the state of a row over a document leaves the list instances with other keys. Of a key of the
row is read back what the state makes of what was read back before, if the document held no more list
instances of it than the row has. -/
theorem exists_lists_of_overlayRow (known : schema.table? table.name = some table)
    (sound : table.IsSound) {state : RowState} (takes : table.CanTake rowKey state)
    (lists : document.Lists table nodes)
    (laid : (overlayRow schema table rowKey state).outcome document = (.ok (), later)) :
    ∃ more, later.Lists table more ∧
      (∀ key, key ∉ table.instanceKeys rowKey → more.ofKey key = nodes.ofKey key) ∧
      ∀ key ∈ table.instanceKeys rowKey,
        (nodes.ofKey key).length ≤ (table.instanceKeys rowKey).count key →
          table.readAt more key = (state.apply (table.readAt nodes key)).map table.settled := by
  cases state with
  | deleted =>
      obtain ⟨combinations, _, expanding, _⟩ := outcome_bind_eq_ok_iff.mp laid
      rw [outcome_except, Prod.mk.injEq] at expanding
      obtain ⟨last, left, removed, lastLists, dropped⟩ := lists_removeRow lists expanding.1
      cases removed.symm.trans laid
      refine ⟨left, lastLists, fun key outside => ?_, fun key inside bounded => ?_⟩
      · rw [dropped, List.count_eq_zero.mpr outside, List.drop_zero]
      · have empty : left.ofKey key = [] := (dropped key).trans (List.drop_eq_nil_of_le bounded)
        rw [TableSchema.readAt_of_nil empty]
        rfl
  | present fields =>
      obtain ⟨_, middle, removing, putting⟩ := outcome_bind_eq_ok_iff.mp laid
      obtain ⟨combinations, _, expanding, _⟩ := outcome_bind_eq_ok_iff.mp removing
      rw [outcome_except, Prod.mk.injEq] at expanding
      obtain ⟨_, left, removed, leftLists, dropped⟩ := lists_removeRow lists expanding.1
      cases removed.symm.trans removing
      obtain ⟨_, more, put, moreLists, joined⟩ := lists_putRow known leftLists expanding.1 fields
      cases put.symm.trans putting
      refine ⟨more, moreLists, fun key outside => ?_, fun key inside bounded => ?_⟩
      · rw [joined, TableSchema.instancesAt_eq_nil_iff.mpr outside, List.foldl_nil, dropped,
          List.count_eq_zero.mpr outside, List.drop_zero]
      · obtain ⟨fresh, single, read⟩ :=
          TableSchema.foldl_joinFirst_instancesAt sound takes inside fields
        have own := joined key
        rw [dropped, List.drop_eq_nil_of_le bounded, single] at own
        rw [TableSchema.readAt_of_single own, read]
        rfl
  | overlay patch =>
      obtain ⟨combinations, _, expanding, patching⟩ := outcome_bind_eq_ok_iff.mp laid
      rw [outcome_except, Prod.mk.injEq] at expanding
      obtain ⟨expanded, rfl⟩ := expanding
      obtain ⟨once, alone⟩ := takes
      rw [TableSchema.instanceKeys_eq expanded] at once alone ⊢
      obtain ⟨more, moreLists, others, own⟩ :=
        exists_lists_of_patchInstances known sound patch once alone lists patching
      refine ⟨more, moreLists, others, fun key inside bounded => ?_⟩
      rw [own key inside (bounded.trans (List.nodup_iff_count_le_one.mp once key)), RowState.apply,
        Option.map_map]
      rfl

/-- Laying the states of rows that have no list instance in common over a document one after another:
list instances of no row stay, and of a key of one row is read back what its state makes of it. -/
theorem exists_lists_of_overlayRows (known : schema.table? table.name = some table)
    (sound : table.IsSound) {rows : List (String × RowState)}
    (apart : rows.Pairwise fun first second =>
      ∀ key ∈ table.instanceKeys first.1, key ∉ table.instanceKeys second.1)
    (takes : ∀ row ∈ rows, table.CanTake row.1 row.2) (lists : document.Lists table nodes)
    (laid : (rows.forM fun row => overlayRow schema table row.1 row.2).outcome document =
      (.ok (), later)) :
    ∃ more, later.Lists table more ∧
      (∀ key, (∀ row ∈ rows, key ∉ table.instanceKeys row.1) → more.ofKey key = nodes.ofKey key) ∧
      ∀ row ∈ rows, ∀ key ∈ table.instanceKeys row.1,
        (nodes.ofKey key).length ≤ (table.instanceKeys row.1).count key →
          table.readAt more key = (row.2.apply (table.readAt nodes key)).map table.settled := by
  induction rows generalizing document nodes with
  | nil =>
      cases laid
      exact ⟨nodes, lists, fun _ _ => rfl, fun _ member => absurd member List.not_mem_nil⟩
  | cons row rows ih =>
      rw [List.pairwise_cons] at apart
      rw [List.forall_mem_cons] at takes
      obtain ⟨_, middle, stepped, rest⟩ := outcome_bind_eq_ok_iff.mp laid
      obtain ⟨between, middleLists, kept, own⟩ :=
        exists_lists_of_overlayRow known sound takes.1 lists stepped
      obtain ⟨more, laterLists, keptLater, ownLater⟩ := ih apart.2 takes.2 middleLists rest
      refine ⟨more, laterLists, fun key outside => ?_, fun other member key inside bounded => ?_⟩
      · rw [List.forall_mem_cons] at outside
        rw [keptLater key outside.2, kept key outside.1]
      · rcases List.mem_cons.mp member with rfl | later
        · have untouched := keptLater key fun next behind => apart.1 next behind key inside
          rw [TableSchema.readAt_congr untouched, own key inside bounded]
        · have outside : key ∉ table.instanceKeys row.1 := fun shared =>
            apart.1 other later key shared inside
          rw [ownLater other later key inside (kept key outside ▸ bounded),
            TableSchema.readAt_congr (kept key outside)]

end Document

end ConfigVetting
