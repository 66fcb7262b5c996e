import ConfigVetting.Proofs.Text.ByteOrder
import ConfigVetting.Proofs.World.StoredRows

/-! # Enumeration of keys by their beginning

The store goes through its keys in their order, from a text on, and stops at the first key that does not
start with it. No key is missed that way: those that start with the text stand together, and none of them
comes before it. What is found is exactly the stored keys with that beginning, in the order of their bytes
(`ConfigVetting.Store.exists_outcome_keys`).
-/

namespace ConfigVetting.Store

open StoreM

private theorem outcome_checkAvailable (store : Store) :
    checkAvailable.outcome store =
      (if store.available then .ok () else .error (.unavailable "store marked unavailable"), store) := by
  obtain ⟨database, rows, available, stats, subscribers, subscriptions⟩ := store
  cases available <;> rfl

/-- A request that needs the store to be available is refused by one that is not, and changes nothing. -/
theorem outcome_checkAvailable_bind {α : Type} (request : Unit → StoreM α) (store : Store) :
    (checkAvailable >>= request).outcome store =
      if store.available then (request ()).outcome store
      else (.error (.unavailable "store marked unavailable"), store) := by
  rw [outcome_bind, outcome_checkAvailable]
  cases store.available <;> rfl

/-- The keys found from a text on stand in the order of their bytes. -/
theorem pairwise_keysFrom (start : String) (rows : ByName Fields) :
    (keysFrom start rows.keys).Pairwise fun first second => Text.bytes first < Text.bytes second := by
  have ordered : (keysFrom start rows.keys).Pairwise fun first second => first < second :=
    (ordered_keys rows).sublist ((List.takeWhile_sublist _).trans (List.dropWhile_sublist _))
  exact ordered.imp Text.bytes_lt_bytes_iff.mpr

/-- A store that was asked for keys once more. -/
def afterScan (store : Store) : Store :=
  { store with stats.keyScans := store.stats.keyScans + 1 }

/-- Listing keys answers all that begin with a text, and fails if the store is not available. -/
theorem outcome_keys (store : Store) (start : String) :
    (keys start).outcome store =
      if store.available then (.ok (keysFrom start store.rows.keys), store.afterScan)
      else (.error (.unavailable "store marked unavailable"), store) := by
  unfold keys
  rw [outcome_checkAvailable_bind]
  rfl

/-- **Enumeration is exact.** The keys that a store finds by their beginning are the stored ones that have
it, each of them once, in the order of their bytes. An unavailable store refuses and stays as it was. -/
theorem exists_outcome_keys (store : Store) (start : String) : ∃ found : List String,
    found.Pairwise (fun first second => Text.bytes first < Text.bytes second) ∧
    (∀ key, key ∈ found ↔ key ∈ store.rows ∧ ∃ rest, key = start ++ rest) ∧
    (keys start).outcome store =
      if store.available then (.ok found, store.afterScan)
      else (.error (.unavailable "store marked unavailable"), store) := by
  refine ⟨keysFrom start store.rows.keys, pairwise_keysFrom start store.rows, fun key => ?_,
    outcome_keys store start⟩
  rw [mem_keysFrom_iff (ordered_keys store.rows), Std.ExtTreeMap.mem_keys, Text.startsWith_iff_exists]

end ConfigVetting.Store
