import ConfigVetting.Proofs.Maps
import ConfigVetting.Proofs.Text.Ends
import ConfigVetting.Proofs.World.Requests

/-! # The stored rows of a table

The keys of a table stand together in the order of the store, from the beginning that they share on.
So the rows that are fetched for a table are those stored under its keys, and no others
(`ConfigVetting.Store.getElem?_tableRows`).
-/

namespace ConfigVetting

namespace Text

/-- A text does not come before a beginning of it. -/
theorem not_lt_of_prefix {start text : List Char} (starts : start <+: text) : ¬ text < start := by
  induction start generalizing text with
  | nil => exact List.not_lt_nil text
  | cons c start ih =>
      obtain ⟨rest, rfl⟩ := starts
      rw [List.cons_append, List.cons_lt_cons_iff]
      rintro (less | ⟨_, less⟩)
      · exact Char.lt_irrefl _ less
      · exact ih (List.prefix_append start rest) less

/-- A text that stands between another one and a text that starts with it starts with it too. -/
theorem prefix_of_between {start text later : List Char} (starts : start <+: later)
    (reached : ¬ text < start) (before : text < later) : start <+: text := by
  induction start generalizing text later with
  | nil => exact List.nil_prefix
  | cons c start ih =>
      obtain ⟨rest, rfl⟩ := starts
      cases text with
      | nil => exact absurd (List.nil_lt_cons c start) reached
      | cons d text =>
          rw [List.cons_append, List.cons_lt_cons_iff] at before
          rw [List.cons_lt_cons_iff, not_or] at reached
          rcases before with less | ⟨rfl, less⟩
          · exact absurd less reached.1
          · rw [List.cons_prefix_cons]
            exact ⟨rfl, ih (List.prefix_append start rest) (fun lower => reached.2 ⟨rfl, lower⟩) less⟩

end Text

namespace Store

/-- Of ordered keys that do not come before a beginning, those that start with it come first. -/
theorem mem_takeWhile_iff {start key : String} {keys : List String}
    (ordered : keys.Pairwise fun first second => first < second)
    (reached : ∀ key ∈ keys, ¬ key < start) :
    key ∈ keys.takeWhile (Text.startsWith start) ↔ key ∈ keys ∧ Text.startsWith start key := by
  induction keys with
  | nil => simp
  | cons head keys ih =>
      rw [List.pairwise_cons] at ordered
      rw [List.forall_mem_cons] at reached
      by_cases starts : Text.startsWith start head
      · rw [List.takeWhile_cons_of_pos starts, List.mem_cons, List.mem_cons, ih ordered.2 reached.2]
        constructor
        · rintro (rfl | ⟨member, others⟩)
          · exact ⟨Or.inl rfl, starts⟩
          · exact ⟨Or.inr member, others⟩
        · rintro ⟨rfl | member, others⟩
          · exact Or.inl rfl
          · exact Or.inr ⟨member, others⟩
      · rw [List.takeWhile_cons_of_neg starts]
        refine iff_of_false List.not_mem_nil ?_
        rintro ⟨member, later⟩
        rcases List.mem_cons.mp member with rfl | behind
        · exact starts later
        · exact starts (List.isPrefixOf_iff_prefix.mpr (Text.prefix_of_between
            (List.isPrefixOf_iff_prefix.mp later)
            reached.1 (ordered.1 key behind)))

/-- Of ordered keys, those from a beginning on are the ones that start with it. -/
theorem mem_keysFrom_iff {start key : String} {keys : List String}
    (ordered : keys.Pairwise fun first second => first < second) :
    key ∈ keysFrom start keys ↔ key ∈ keys ∧ Text.startsWith start key := by
  unfold keysFrom
  induction keys with
  | nil => simp
  | cons head keys ih =>
      rw [List.pairwise_cons] at ordered
      by_cases before : head < start
      · rw [List.dropWhile_cons_of_pos (by simpa using before), ih ordered.2, List.mem_cons]
        constructor
        · rintro ⟨member, starts⟩
          exact ⟨Or.inr member, starts⟩
        · rintro ⟨rfl | member, starts⟩
          · exact absurd before (Text.not_lt_of_prefix (List.isPrefixOf_iff_prefix.mp starts))
          · exact ⟨member, starts⟩
      · rw [List.dropWhile_cons_of_neg (by simpa using before)]
        refine mem_takeWhile_iff (List.pairwise_cons.mpr ordered) ?_
        rw [List.forall_mem_cons]
        exact ⟨before, fun later member less => before (String.lt_trans (ordered.1 later member) less)⟩

/-- Keys are listed in their order. -/
theorem ordered_keys (rows : ByName Fields) :
    rows.keys.Pairwise fun first second => first < second :=
  rows.ordered_keys.imp fun {first second} less => by
    have same : compareOfLessAndEq first second = .lt := less
    exact compareOfLessAndEq_eq_lt.mp same

end Store

namespace TableSchema

/-- A store key belongs to the row it is made of. -/
theorem rowKey?_eq_some_iff {table : TableSchema} {key rowKey : String} :
    table.rowKey? key = some rowKey ↔ key = table.storeKey rowKey :=
  Text.afterStart_eq_some_iff

theorem startsWith_storeKey (table : TableSchema) (rowKey : String) :
    Text.startsWith table.storeStart (table.storeKey rowKey) = true :=
  Text.startsWith_iff_exists.mpr ⟨rowKey, rfl⟩

private theorem exists_storeKey_of_startsWith (table : TableSchema) {key : String}
    (starts : Text.startsWith table.storeStart key) : ∃ rowKey, key = table.storeKey rowKey :=
  Text.startsWith_iff_exists.mp starts

end TableSchema

namespace Store

private theorem getElem?_withRow (table : TableSchema) (keyed : KeyedRows) (key : String)
    (fields : Option Fields) (rowKey : String) :
    (withRow table keyed key fields)[rowKey]? =
      if key = table.storeKey rowKey then fields.or keyed[rowKey]? else keyed[rowKey]? := by
  unfold withRow
  cases own : table.rowKey? key with
  | none =>
      have other : key ≠ table.storeKey rowKey := by
        intro same
        rw [TableSchema.rowKey?_eq_some_iff.mpr same] at own
        cases own
      rw [if_neg other]
  | some found =>
      cases fields with
      | none => simp
      | some fields =>
          cases TableSchema.rowKey?_eq_some_iff.mp own
          simp only [ByName.getElem?_insert, Option.some_or]
          by_cases same : found = rowKey
          · simp [same]
          · have other : table.storeKey found ≠ table.storeKey rowKey := fun equal =>
              same (String.append_right_inj _ |>.mp equal)
            rw [if_neg same, if_neg other]

/-- The key of a row is one from the beginning of its table on exactly if it is stored. -/
theorem storeKey_mem_keysFrom_iff {table : TableSchema} {rows : ByName Fields} {rowKey : String} :
    table.storeKey rowKey ∈ keysFrom table.storeStart rows.keys ↔ table.storeKey rowKey ∈ rows := by
  rw [mem_keysFrom_iff (ordered_keys rows), Std.ExtTreeMap.mem_keys]
  exact and_iff_left (table.startsWith_storeKey rowKey)

/-- The rows of a table are those stored under its keys. -/
theorem getElem?_tableRows (table : TableSchema) (rows : ByName Fields) (rowKey : String) :
    (tableRows table rows)[rowKey]? = rows[table.storeKey rowKey]? := by
  have added : ∀ (keys : List String) (keyed : KeyedRows),
      (keys.foldl (fun keyed key => withRow table keyed key rows[key]?) keyed)[rowKey]? =
        if table.storeKey rowKey ∈ keys then rows[table.storeKey rowKey]?.or keyed[rowKey]?
        else keyed[rowKey]? := by
    intro keys
    induction keys with
    | nil => simp
    | cons key keys ih =>
        intro keyed
        rw [List.foldl_cons, ih, getElem?_withRow]
        by_cases own : key = table.storeKey rowKey
        · subst own
          by_cases later : table.storeKey rowKey ∈ keys <;> simp [later, ← Option.or_assoc]
        · simp [own, Ne.symm own]
  rw [tableRows, added]
  by_cases stored : table.storeKey rowKey ∈ rows
  · rw [if_pos (storeKey_mem_keysFrom_iff.mpr stored)]
    simp
  · rw [if_neg fun member => stored (storeKey_mem_keysFrom_iff.mp member),
      Std.ExtTreeMap.getElem?_eq_none stored]
    simp

/-- The keys of a table are as many as its rows. -/
theorem length_keysFrom (table : TableSchema) (rows : ByName Fields) :
    (keysFrom table.storeStart rows.keys).length = (tableRows table rows).size := by
  have listed : (keysFrom table.storeStart rows.keys).Perm
      ((tableRows table rows).keys.map table.storeKey) := by
    refine (List.perm_ext_iff_of_nodup ?_ ?_).mpr fun key => ?_
    · exact rows.nodup_keys.sublist
        ((List.takeWhile_sublist _).trans (List.dropWhile_sublist _))
    · exact List.Pairwise.map table.storeKey
        (fun first second apart same => apart (String.append_right_inj _ |>.mp same))
        Std.ExtTreeMap.nodup_keys
    · rw [mem_keysFrom_iff (ordered_keys rows), List.mem_map]
      simp only [Std.ExtTreeMap.mem_keys, Std.ExtTreeMap.mem_iff_isSome_getElem?, getElem?_tableRows]
      constructor
      · rintro ⟨stored, starts⟩
        obtain ⟨rowKey, rfl⟩ := table.exists_storeKey_of_startsWith starts
        exact ⟨rowKey, stored, rfl⟩
      · rintro ⟨rowKey, stored, rfl⟩
        exact ⟨stored, table.startsWith_storeKey rowKey⟩
  rw [listed.length_eq, List.length_map, Std.ExtTreeMap.length_keys]

end Store

end ConfigVetting
