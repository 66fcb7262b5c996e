import ConfigVetting.Proofs.World.Outcome
import ConfigVetting.Store.Fetch

/-! # Requests that only read

The requests that checks put to the store change nothing in it but the counts of its use, and their
answers are determined by the stored rows (`ConfigVetting.StoreM.IsRead`). Rows fetched in batches are
the rows of the keys in order, whatever the size of the batches.
-/

namespace ConfigVetting

namespace StoreM

variable {α β : Type}

/-- The answer or fault of a request to a store, and the store after it. -/
def outcome (request : StoreM α) (store : Store) : Except StoreFault α × Store :=
  StateT.run (m := Id) (ExceptT.run request) store

/-- Whether a request changes nothing but counts, and is answered from the stored rows alone. -/
def IsRead (request : StoreM α) (answer : ByName Fields → α) : Prop :=
  ∀ store : Store, (∃ stats, (request.outcome store).2 = { store with stats }) ∧
    ∀ given, (request.outcome store).1 = .ok given → given = answer store.rows

private theorem IsRead.pure (answer : α) : (pure answer : StoreM α).IsRead fun _ => answer :=
  fun store => ⟨⟨store.stats, rfl⟩, fun _ given => (Except.ok.inj given).symm⟩

/-- A composed request goes on with the store that its first part leaves. -/
theorem outcome_bind (request : StoreM α) (next : α → StoreM β) (store : Store) :
    (request >>= next).outcome store =
      match request.outcome store with
      | (.ok answer, later) => (next answer).outcome later
      | (.error fault, later) => (.error fault, later) := by
  refine (Stateful.outcome_bind request next store).trans ?_
  rw [show Stateful.outcome request store = request.outcome store from rfl]
  rcases request.outcome store with ⟨answer, later⟩
  cases answer <;> rfl

private theorem IsRead.bind {request : StoreM α} {next : α → StoreM β} {first : ByName Fields → α}
    {second : α → ByName Fields → β} (isRead : request.IsRead first)
    (nextIsRead : ∀ answer, (next answer).IsRead (second answer)) :
    (request >>= next).IsRead fun rows => second (first rows) rows := by
  intro store
  obtain ⟨⟨stats, changed⟩, answered⟩ := isRead store
  rw [outcome_bind]
  rcases split : request.outcome store with ⟨answer, later⟩
  rw [split] at changed answered
  cases answer with
  | error fault => exact ⟨⟨stats, changed⟩, fun _ given => by cases given⟩
  | ok answer =>
      cases answered answer rfl
      obtain ⟨⟨laterStats, laterChanged⟩, laterAnswered⟩ := nextIsRead (first store.rows) later
      subst changed
      exact ⟨⟨laterStats, laterChanged⟩, laterAnswered⟩

private theorem isRead_checkAvailable : Store.checkAvailable.IsRead fun _ => () := by
  intro store
  refine ⟨⟨store.stats, ?_⟩, fun _ _ => rfl⟩
  obtain ⟨database, rows, available, stats, subscribers, subscriptions⟩ := store
  cases available <;> rfl

/-- Counting the use of the store. -/
theorem isRead_count (count : StoreStats → StoreStats) :
    (modify fun store => { store with stats := count store.stats } : StoreM Unit).IsRead
      fun _ => () :=
  fun store => ⟨⟨count store.stats, rfl⟩, fun _ _ => rfl⟩

/-- Answering from the stored rows. -/
theorem isRead_rows (answer : ByName Fields → α) :
    (do return answer (← get).rows : StoreM α).IsRead answer :=
  fun store => ⟨⟨store.stats, rfl⟩, fun _ given => (Except.ok.inj given).symm⟩

/-- Counting the use of the store, if it is available, and answering from the stored rows. -/
theorem isRead_counted (count : StoreStats → StoreStats) (answer : ByName Fields → α) :
    (do
      Store.checkAvailable
      modify fun store => { store with stats := count store.stats }
      return answer (← get).rows : StoreM α).IsRead answer := by
  have afterCheck : (do
      modify fun store => { store with stats := count store.stats }
      return answer (← get).rows : StoreM α).IsRead answer :=
    (isRead_count count).bind fun _ => isRead_rows answer
  exact isRead_checkAvailable.bind fun _ => afterCheck

/-- Requests for each item of a list read if each of them does. -/
theorem IsRead.mapM {request : α → StoreM β} {answer : α → ByName Fields → β}
    (isRead : ∀ item, (request item).IsRead (answer item)) (items : List α) :
    (items.mapM request).IsRead fun rows => items.map fun item => answer item rows := by
  induction items with
  | nil => exact IsRead.pure []
  | cons item items ih =>
      rw [List.mapM_cons]
      exact (isRead item).bind fun first => ih.bind fun rest => IsRead.pure (first :: rest)

/-- Whether a request is served while the store is available. -/
def IsServed (request : StoreM α) : Prop :=
  ∀ store : Store, store.available = true → ∃ answer, (request.outcome store).1 = .ok answer

private theorem IsServed.pure (answer : α) : (pure answer : StoreM α).IsServed :=
  fun _ _ => ⟨answer, rfl⟩

private theorem IsServed.bind {request : StoreM α} {next : α → StoreM β} {first : ByName Fields → α}
    (isRead : request.IsRead first) (served : request.IsServed)
    (nextServed : ∀ answer, (next answer).IsServed) : (request >>= next).IsServed := by
  intro store available
  obtain ⟨⟨stats, changed⟩, _⟩ := isRead store
  obtain ⟨answer, given⟩ := served store available
  rw [outcome_bind]
  rcases split : request.outcome store with ⟨first, later⟩
  rw [split] at changed given
  subst given changed
  exact nextServed answer _ available

/-- Requests for each item of a list are served if each of them is. -/
theorem IsServed.mapM {request : α → StoreM β} {answer : α → ByName Fields → β}
    (isRead : ∀ item, (request item).IsRead (answer item))
    (served : ∀ item, (request item).IsServed) (items : List α) :
    (items.mapM request).IsServed := by
  induction items with
  | nil => exact IsServed.pure []
  | cons item items ih =>
      rw [List.mapM_cons]
      exact .bind (isRead item) (served item) fun _ =>
        .bind (IsRead.mapM isRead items) ih fun _ => .pure _

end StoreM

namespace Store

open StoreM

/-- Keys are answered from the stored rows, in order. -/
theorem isRead_keys (start : String) : (keys start).IsRead fun rows => keysFrom start rows.keys :=
  isRead_counted (fun stats => { stats with keyScans := stats.keyScans + 1 })
    (fun rows => keysFrom start rows.keys)

/-- Rows are answered one for each key, in the order of the keys. -/
theorem isRead_getRows (keys : List String) :
    (getRows keys).IsRead fun rows => keys.map fun key => rows[key]? :=
  isRead_counted (fun stats => { stats with
    batches := stats.batches + 1
    rowsFetched := stats.rowsFetched + keys.length }) (fun rows => keys.map fun key => rows[key]?)

/-- Whether a row is there is answered from the stored rows. -/
theorem isRead_holds (key : String) : (holds key).IsRead fun rows => decide (key ∈ rows) :=
  isRead_counted (fun stats => { stats with existsChecks := stats.existsChecks + 1 })
    (fun rows => decide (key ∈ rows))

theorem isServed_keys (start : String) : (keys start).IsServed := by
  rintro ⟨database, rows, available, stats, subscribers, subscriptions⟩ rfl
  exact ⟨_, rfl⟩

theorem isServed_getRows (keys : List String) : (getRows keys).IsServed := by
  rintro ⟨database, rows, available, stats, subscribers, subscriptions⟩ rfl
  exact ⟨_, rfl⟩

end Store

namespace World

variable {α : Type}

/-- A request to the store changes nothing else of the world, and a fault of it rejects the call. -/
theorem outcome_askStore (request : StoreM α) (world : World) :
    (askStore request).outcome world =
      match request.outcome world.store with
      | (.ok answer, store) => (.ok answer, { world with store })
      | (.error fault, store) => (.error (.ofStore fault), { world with store }) := by
  have tried : World.run (tryStore request) world =
      ((request.outcome world.store).1,
        { world with store := (request.outcome world.store).2 }) := rfl
  unfold askStore
  rw [WorldM.outcome_bind, WorldM.outcome_state, tried]
  rcases request.outcome world.store with ⟨answer, store⟩
  cases answer <;> rfl

/-- Asking the store leaves the rest of the world. -/
theorem outcome_askStore_snd (request : StoreM α) (world : World) :
    ((askStore request).outcome world).2 =
      { world with store := (request.outcome world.store).2 } := by
  rw [outcome_askStore]
  rcases request.outcome world.store with ⟨answer, store⟩
  cases answer <;> rfl

/-- A request that reads is answered from the stored rows while the store is available. -/
theorem exists_outcome_askStore {request : StoreM α} {answer : ByName Fields → α}
    (isRead : request.IsRead answer) (served : request.IsServed) {world : World}
    (available : world.store.available = true) :
    ∃ stats, (askStore request).outcome world =
      (.ok (answer world.store.rows), { world with store.stats := stats }) := by
  obtain ⟨⟨stats, changed⟩, answered⟩ := isRead world.store
  obtain ⟨given, answer⟩ := served world.store available
  refine ⟨stats, ?_⟩
  rw [outcome_askStore]
  rcases split : request.outcome world.store with ⟨first, store⟩
  rw [split] at changed answer answered
  subst answer changed
  rw [answered given rfl]

/-- An answer of the store is the one determined by the stored rows. -/
theorem eq_of_outcome_askStore {request : StoreM α} {answer : ByName Fields → α}
    (isRead : request.IsRead answer) {world later : World} {given : α}
    (asked : (askStore request).outcome world = (.ok given, later)) :
    given = answer world.store.rows := by
  obtain ⟨_, answered⟩ := isRead world.store
  rw [outcome_askStore] at asked
  rcases split : request.outcome world.store with ⟨answer, store⟩
  rw [split] at asked answered
  cases answer with
  | error fault => cases asked
  | ok answer =>
      cases asked
      exact answered _ rfl

end World

/-- The batches of a list make up the list. -/
theorem flatten_batches {α : Type} (size : Nat) (items : List α) :
    (batches size items).flatten = items := by
  fun_induction batches size items with
  | case1 => rfl
  | case2 first rest ih => rw [List.flatten_cons, ih, List.cons_append, List.take_append_drop]

namespace Store

open StoreM

/-- Rows fetched in batches are answered one for each key. -/
theorem isRead_fetch (keys : List String) (batchSize : Nat) :
    (fetch keys batchSize).IsRead fun rows => keys.map fun key => rows[key]? := by
  have inBatches : (fetch keys batchSize).IsRead fun rows => ((batches batchSize keys).map
      fun batch => batch.map fun key => rows[key]?).flatten :=
    (IsRead.mapM isRead_getRows (batches batchSize keys)).bind fun answers =>
      IsRead.pure answers.flatten
  have whole : ∀ rows : ByName Fields, ((batches batchSize keys).map fun batch =>
      batch.map fun key => rows[key]?).flatten = keys.map fun key => rows[key]? := by
    intro rows
    rw [← List.map_flatten, flatten_batches]
  simpa only [whole] using inBatches

/-- Rows by row key with one row of a store added, if its key is one of the table. -/
def withRow (table : TableSchema) (keyed : KeyedRows) (key : String) (fields : Option Fields) :
    KeyedRows :=
  match table.rowKey? key, fields with
  | some rowKey, some fields => keyed.insert rowKey fields
  | _, _ => keyed

/-- The rows of a table by row key, in stored ones by store key. -/
def tableRows (table : TableSchema) (rows : ByName Fields) : KeyedRows :=
  (keysFrom table.storeStart rows.keys).foldl (fun keyed key => withRow table keyed key rows[key]?) ∅

/-- The rows of a table, put together from its keys and their answers. -/
theorem tableRows_eq_foldl_zip (table : TableSchema) (rows : ByName Fields) :
    tableRows table rows = ((keysFrom table.storeStart rows.keys).zip
      ((keysFrom table.storeStart rows.keys).map fun key => rows[key]?)).foldl
        (fun keyed row => withRow table keyed row.1 row.2) ∅ := by
  rw [← List.map_prod_left_eq_zip, List.foldl_map, tableRows]

/-- The rows fetched for a table are those stored under its beginning. -/
theorem isRead_fetchTable (table : TableSchema) (batchSize : Nat) :
    (fetchTable table batchSize).IsRead (tableRows table) := by
  have fetched : (fetchTable table batchSize).IsRead fun rows =>
      ((keysFrom table.storeStart rows.keys).zip ((keysFrom table.storeStart rows.keys).map
        fun key => rows[key]?)).foldl (fun keyed row => withRow table keyed row.1 row.2) ∅ :=
    (isRead_keys table.storeStart).bind fun keys =>
      (isRead_fetch keys batchSize).bind fun rows => IsRead.pure _
  rw [funext (tableRows_eq_foldl_zip table)]
  exact fetched

theorem isServed_fetch (keys : List String) (batchSize : Nat) : (fetch keys batchSize).IsServed :=
  .bind (IsRead.mapM isRead_getRows _) (.mapM isRead_getRows isServed_getRows _) fun _ => .pure _

theorem isServed_fetchTable (table : TableSchema) (batchSize : Nat) :
    (fetchTable table batchSize).IsServed :=
  .bind (isRead_keys _) (isServed_keys _) fun keys =>
    .bind (isRead_fetch keys batchSize) (isServed_fetch keys batchSize) fun _ => .pure _

end Store

end ConfigVetting
