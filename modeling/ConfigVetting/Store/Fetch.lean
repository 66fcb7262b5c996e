import ConfigVetting.Schema.Table
import ConfigVetting.Store.Basic

/-! # Fetching rows in bulk

Rows are read in batches of bounded size, and come back in the order of their keys.
-/

namespace ConfigVetting

/-- A list cut into pieces of a size, the last one possibly smaller; no piece is empty. -/
def batches {α : Type} (size : Nat) : List α → List (List α)
  | [] => []
  | first :: rest => (first :: rest.take (size - 1)) :: batches size (rest.drop (size - 1))
termination_by items => items.length
decreasing_by
  rw [List.length_drop, List.length_cons]
  omega

namespace Store

/-- The fields of each of some keys, read in batches. -/
def fetch (keys : List String) (batchSize : Nat) : StoreM (List (Option Fields)) := do
  return (← (batches batchSize keys).mapM getRows).flatten

/-- The rows of a table by row key. -/
def fetchTable (table : TableSchema) (batchSize : Nat) : StoreM KeyedRows := do
  let keys ← keys table.storeStart
  let rows ← fetch keys batchSize
  return (keys.zip rows).foldl (fun keyed (key, fields) =>
    match table.rowKey? key, fields with
    | some rowKey, some fields => keyed.insert rowKey fields
    | _, _ => keyed) ∅

end Store

end ConfigVetting
