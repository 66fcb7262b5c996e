import ConfigVetting.Proofs.Store.Enumerating

/-! # Reading in batches

Rows are read in batches of bounded size, and come back in the order of their keys: each key is answered as
it is when it is looked up alone, whatever the size of the batches, and the rows of a table are those stored
under its keys (`ConfigVetting.Store.fetch_eq_lookUps`). The size of the batches shows only in how often the
store was asked.
-/

namespace ConfigVetting

/-- How many batches of a size some number of keys makes. -/
def batchCount (size keys : Nat) : Nat :=
  (keys + (max size 1 - 1)) / max size 1

/-- There are no more batches than needed. -/
theorem length_batches {α : Type} (size : Nat) (items : List α) :
    (batches size items).length = batchCount size items.length := by
  unfold batchCount
  fun_induction batches size items with
  | case1 =>
      rw [List.length_nil, List.length_nil, Nat.zero_add, Nat.div_eq_of_lt]
      omega
  | case2 first rest ih =>
      have size_eq : max size 1 = size - 1 + 1 := by omega
      rw [size_eq, Nat.add_sub_cancel, List.length_drop] at ih
      rw [List.length_cons, List.length_cons, ih, size_eq, Nat.add_sub_cancel]
      by_cases more : size - 1 ≤ rest.length
      · rw [Nat.sub_add_cancel more, Nat.add_right_comm, Nat.add_assoc,
          Nat.add_div_right _ (Nat.succ_pos _)]
      · have alone : rest.length + 1 + (size - 1) = rest.length + (size - 1 + 1) := by omega
        rw [Nat.sub_eq_zero_of_le (Nat.le_of_not_le more), Nat.zero_add,
          Nat.div_eq_of_lt (Nat.lt_succ_self _), alone, Nat.add_div_right _ (Nat.succ_pos _),
          Nat.div_eq_of_lt (by omega)]

namespace Store

open StoreM

variable {store : Store}

/-- A store that was asked for some keys, in some number of batches. -/
def afterBatches (store : Store) (count keys : Nat) : Store :=
  { store with
    stats.batches := store.stats.batches + count
    stats.rowsFetched := store.stats.rowsFetched + keys }

private theorem afterBatches_afterBatches (store : Store) (count others keys otherKeys : Nat) :
    (store.afterBatches count keys).afterBatches others otherKeys =
      store.afterBatches (count + others) (keys + otherKeys) := by
  simp only [afterBatches, Nat.add_assoc]

private theorem outcome_getRows (available : store.available = true) (keys : List String) :
    (getRows keys).outcome store = (.ok (keys.map store.get?), store.afterBatches 1 keys.length) := by
  unfold getRows
  rw [outcome_checkAvailable_bind, if_pos available]
  rfl

/-- Batches read one after another are each answered from the same rows. -/
theorem outcome_mapM_getRows (available : store.available = true) (pieces : List (List String)) :
    (pieces.mapM getRows).outcome store = (.ok (pieces.map (List.map store.get?)),
      store.afterBatches pieces.length pieces.flatten.length) := by
  induction pieces generalizing store with
  | nil => rfl
  | cons piece pieces ih =>
      have rest := @ih (store.afterBatches 1 piece.length) available
      rw [List.mapM_cons, outcome_bind, outcome_getRows available]
      dsimp only
      rw [outcome_bind, rest, afterBatches_afterBatches]
      rw [List.length_cons, List.flatten_cons, List.length_append, Nat.add_comm 1]
      rfl

private theorem outcome_fetch (available : store.available = true) (keys : List String) (batchSize : Nat) :
    (fetch keys batchSize).outcome store = (.ok (keys.map store.get?),
      store.afterBatches (batchCount batchSize keys.length) keys.length) := by
  unfold fetch
  rw [outcome_bind, outcome_mapM_getRows available, flatten_batches, length_batches]
  dsimp only
  rw [← List.map_flatten, flatten_batches]
  rfl

private theorem outcome_fetchTable (available : store.available = true) (table : TableSchema)
    (batchSize : Nat) :
    (fetchTable table batchSize).outcome store = (.ok (tableRows table store.rows),
      store.afterScan.afterBatches (batchCount batchSize (tableRows table store.rows).size)
        (tableRows table store.rows).size) := by
  have scanned : store.afterScan.available = true := available
  unfold fetchTable
  rw [outcome_bind, outcome_keys, if_pos available]
  dsimp only
  rw [outcome_bind, outcome_fetch scanned, length_keysFrom, tableRows_eq_foldl_zip]
  rfl

/-- **Reading in batches.** Whatever the size of its batches is, a request for some keys is answered, position
by position, as each key is when it is looked up alone, and a request for a table with the rows stored under
its keys. The store is as before but for the counts of its use. -/
theorem fetch_eq_lookUps (available : store.available = true) (batchSize : Nat) :
    (∀ keys, (fetch keys batchSize).outcome store = (.ok (keys.map store.get?),
      store.afterBatches (batchCount batchSize keys.length) keys.length)) ∧
    (∀ key, (getRows [key]).outcome store = (.ok [store.get? key], store.afterBatches 1 1)) ∧
    (∀ table : TableSchema, ∃ rows : KeyedRows,
      (∀ rowKey, rows[rowKey]? = store.get? (table.storeKey rowKey)) ∧
      (fetchTable table batchSize).outcome store =
        (.ok rows, store.afterScan.afterBatches (batchCount batchSize rows.size) rows.size)) :=
  ⟨fun keys => outcome_fetch available keys batchSize, fun key => outcome_getRows available [key],
    fun table => ⟨tableRows table store.rows, getElem?_tableRows table store.rows,
      outcome_fetchTable available table batchSize⟩⟩

/-- The fields of a port. -/
def portFields (mtu : String) : Fields :=
  (∅ : Fields).insert "mtu" mtu

/-- A store of two ports. -/
def twoPorts : Store where
  database := 0
  rows := ((∅ : ByName Fields).insert "PORT|a" (portFields "1500")).insert "PORT|b" (portFields "9100")

/-- Four keys in batches of three, one of them given twice and one that is not stored. -/
theorem fetch_twoPorts : twoPorts.available = true ∧
    (fetch ["PORT|b", "PORT|c", "PORT|a", "PORT|b"] 3).outcome twoPorts =
      (.ok [some (portFields "9100"), none, some (portFields "1500"), some (portFields "9100")],
        twoPorts.afterBatches 2 4) := by
  refine ⟨rfl, ?_⟩
  have fetched := (@fetch_eq_lookUps twoPorts rfl 3).1
  rw [fetched]
  simp [twoPorts, get?, batchCount, Std.ExtTreeMap.getElem_insert]

end Store

end ConfigVetting
