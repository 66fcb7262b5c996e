import ConfigVetting.Proofs.Cache.Backlog
import ConfigVetting.Proofs.Cache.Listening

/-! # Keeping a cached table up to date

Rows of a cached table are written while the listener handles the announcements in order, each with what
the store holds by then. Whenever nothing waits, the cached document is read back to the same rows as a
document built from the store (`ConfigVetting.World.Upkeep.toRows_eq_of_idle`), so long as the rows have no list
instance in common and each written row merges plainly. A row that names an entry twice does not in a
table that holds the names and the values of entries in one leaf
(`ConfigVetting.World.upkeep_of_repeatedEntry`).
-/

namespace ConfigVetting

/-- Brings a document up to date with a row of a table, or with its absence. -/
def Document.renewRow (schema : Schema) (table : TableSchema) (rowKey : String)
    (current : Option Fields) : DocumentM Unit := do
  removeRow table rowKey
  match current with
  | some fields => putRow schema table rowKey fields
  | none => pure ()
  modify compactIfSparse

/-- A document that is brought up to date with a row has its list instances in place of as many as the
row has of each key. -/
theorem Document.lists_renewRow {schema : Schema} {table : TableSchema} {document : Document}
    {nodes : Forest Unit} {rowKey : String} (known : schema.table? table.name = some table)
    (lists : document.Lists table nodes)
    (expands : ∃ combinations, table.expandKey rowKey = .ok combinations) (current : Option Fields) :
    ∃ later more, (renewRow schema table rowKey current).outcome document = (.ok (), later) ∧
      later.Lists table more ∧ ∀ key, more.ofKey key =
        (current.toList.flatMap fun fields => table.instancesAt key rowKey fields).foldl
          Forest.joinFirst ((nodes.ofKey key).drop ((table.instanceKeys rowKey).count key)) := by
  obtain ⟨combinations, expanded⟩ := expands
  obtain ⟨middle, left, removed, middleLists, dropped⟩ := lists_removeRow lists expanded
  unfold renewRow
  rw [DocumentM.outcome_bind, removed]
  cases current with
  | none => exact ⟨_, left, rfl, middleLists.compactIfSparse, dropped⟩
  | some fields =>
      obtain ⟨later, more, put, laterLists, joined⟩ :=
        lists_putRow known middleLists expanded fields
      refine ⟨_, more, ?_, laterLists.compactIfSparse, fun key => ?_⟩
      · simp only
        rw [DocumentM.outcome_bind, put]
        rfl
      · rw [joined, dropped, Option.toList_some, List.flatMap_singleton]

namespace Cache

open WorldM

variable {setting : Setting} {table : TableSchema} {world : World}

/-- While the store is available, a change of a row is followed by what the store holds for it. -/
theorem exists_outcome_fieldsAfter (available : world.store.available = true)
    (change : String × ChangeKind) :
    ∃ stats, (fieldsAfter (table.storeKey change.1) change.2).outcome world =
      (.ok (table.heldFor world.store.rows change), { world with store.stats := stats }) := by
  obtain ⟨rowKey, kind⟩ := change
  obtain ⟨stats, asked⟩ := World.exists_outcome_askStore
    (Store.isRead_getRows [table.storeKey rowKey]) (Store.isServed_getRows _) available
  have fetched : (do return (← World.askStore (Store.getRows [table.storeKey rowKey])).head?.join :
      WorldM (Option Fields)).outcome world =
        (.ok world.store.rows[table.storeKey rowKey]?, { world with store.stats := stats }) := by
    rw [outcome_bind, asked]
    rfl
  cases kind with
  | rowDeleted => exact ⟨world.store.stats, rfl⟩
  | fieldsSet => exact ⟨stats, fetched⟩
  | fieldsDeleted => exact ⟨stats, fetched⟩

/-- The announcement of a change of a row. -/
def announcement (database : Nat) (table : TableSchema) (change : String × ChangeKind) :
    Notification :=
  Notification.ofKey database (table.storeKey change.1) change.2

/-- Applying a notification brings the document of its table up to date with what the store holds. -/
theorem exists_outcome_applyNotification {change : String × ChangeKind}
    (owned : setting.schema.splitStoreKey (table.storeKey change.1) = some (table, change.1))
    (available : world.store.available = true) {document later : Document}
    (there : world.cache.document? table.name = some document)
    (renewed : (Document.renewRow setting.schema table change.1
      (table.heldFor world.store.rows change)).outcome document = (.ok (), later)) (database : Nat) :
    ∃ after, (applyNotification setting (announcement database table change)).outcome world =
        (.ok true, after) ∧
      after.store.rows = world.store.rows ∧ after.cache.document? table.name = some later := by
  let told : World := { world with heard := world.heard ++ [announcement database table change] }
  obtain ⟨stats, followed⟩ :
      ∃ stats, (fieldsAfter (table.storeKey change.1) change.2).outcome told =
        (.ok (table.heldFor world.store.rows change), { told with store.stats := stats }) :=
    exists_outcome_fieldsAfter (show told.store.available = true from available) change
  have registered : table.name ∈ world.cache.entries := by
    obtain ⟨entry, stored, _⟩ := Option.bind_eq_some_iff.mp there
    rw [Std.ExtTreeMap.mem_iff_isSome_getElem?, stored]
    rfl
  have changed : (changeDocument table.name (Document.renewRow setting.schema table change.1
      (table.heldFor world.store.rows change))).outcome { told with store.stats := stats } =
        (.ok (), { told with
          store.stats := stats
          cache := world.cache.putDocument table.name (some later) }) := by
    rw [outcome_changeDocument]
    simp only [told, there, renewed]
  have applied : (applyNotification setting (announcement database table change)).outcome world =
      (do
        changeDocument table.name (Document.renewRow setting.schema table change.1
          (table.heldFor world.store.rows change))
        World.countUse fun stats => { stats with incrementalUpdates := stats.incrementalUpdates + 1 }
        World.note .notificationApplied [("key", table.storeKey change.1),
          ("op", change.2.payload), ("table", table.name)]
        return true : WorldM Bool).outcome { told with store.stats := stats } := by
    unfold applyNotification
    rw [outcome_bind, outcome_state, show World.run (World.hear (announcement database table change)) world =
      ((), told) from rfl]
    simp only [announcement, Notification.key_ofKey, Notification.kind_ofKey, owned]
    rw [outcome_bind, outcome_get]
    simp only [show told.cache.document? table.name = some document from there, Option.isNone_some,
      Bool.false_eq_true, ↓reduceIte]
    rw [outcome_bind, followed]
    rfl
  rw [applied, outcome_bind, changed]
  exact ⟨_, rfl, rfl, (document?_putDocument _ _ _ _).trans (if_pos ⟨rfl, registered⟩)⟩

/-- The document of a table can be made of rows that fit. -/
theorem exists_lists_of_expands {schema : Schema} {rows : ByName Fields}
    (known : schema.table? table.name = some table)
    (expands : ∀ rowKey, table.Stores rows rowKey →
      ∃ combinations, table.expandKey rowKey = .ok combinations) :
    ∃ document nodes,
      Document.ofRows schema ((∅ : TableRows).insert table.name (Store.tableRows table rows)) =
        .ok document ∧
      table.rowsNodes (Store.tableRows table rows) = .ok nodes ∧ document.Lists table nodes := by
  have each : ∀ row ∈ (Store.tableRows table rows).toList,
      ∃ instances, table.rowNodes row.1 row.2 = .ok instances := by
    intro row member
    obtain ⟨combinations, expanded⟩ := expands row.1 (TableSchema.stores_iff.mpr ⟨row.2, member⟩)
    exact ⟨_, Except.map_eq_ok_iff.mpr ⟨combinations, expanded, rfl⟩⟩
  obtain ⟨instances, mapped⟩ := Except.exists_mapM_eq_ok each
  have translated : table.rowsNodes (Store.tableRows table rows) = .ok instances.flatten :=
    Except.map_eq_ok_iff.mpr ⟨instances, mapped, rfl⟩
  have made : Document.ofRows schema
      ((∅ : TableRows).insert table.name (Store.tableRows table rows)) =
        .ok (Document.ofForest (table.forestOf instances.flatten)) := by
    rw [Document.ofRows, Forest.ofRows_ofTable known, translated]
    rfl
  obtain ⟨again, same, lists⟩ := Document.exists_lists_of_ofRows known made
  cases translated.symm.trans same
  exact ⟨_, _, made, translated, lists⟩

/-- While the store is available, the document of a table is built if its rows fit. -/
theorem exists_outcome_build (known : setting.schema.table? table.name = some table)
    (available : world.store.available = true) (apart : table.StandsApart world.store.rows) :
    ∃ document nodes, ((build setting table.name).outcome world).1 = .ok document ∧
      table.rowsNodes (Store.tableRows table world.store.rows) = .ok nodes ∧
      document.Lists table nodes := by
  obtain ⟨document, nodes, made, translated, lists⟩ := exists_lists_of_expands known apart.expands
  obtain ⟨stats, asked⟩ := World.exists_outcome_askStore
    (Store.isRead_fetchTable table setting.batchSize) (Store.isServed_fetchTable _ _) available
  refine ⟨document, nodes, ?_, translated, lists⟩
  unfold build
  rw [outcome_bind, Schema.knownTable_eq_ok_iff.mpr known, outcome_except]
  simp only
  rw [outcome_bind, asked]
  simp only
  rw [outcome_bind, made, outcome_except]
  rfl

end Cache

namespace Listener

variable {setting : Setting} {world : World}

/-- With nothing waiting, there is nothing to handle. -/
theorem run_handleNext_of_idle (idle : pending world = []) :
    (World.run (handleNext setting) world).2 = world := by
  unfold handleNext
  rw [World.run_bind, show World.run get world = (world, world) from rfl]
  unfold pending at idle
  cases subscribed : world.cache.listener.subscription with
  | none => rfl
  | some id =>
      rw [subscribed] at idle
      have none : world.store.receive id = Option.none := by
        unfold Store.receive
        rw [show (world.store.subscribers.filter fun subscriber => subscriber.id = id).flatMap
          Subscriber.pending = [] from idle]
      simp only [Option.bind_some, none]
      rfl

/-- The oldest announcement is taken off the subscription and handled. -/
theorem run_handleNext_of_pending {notification : Notification} {later : List Notification}
    (waiting : pending world = notification :: later) :
    World.run (handleNext setting) world = World.run (handle setting notification) world.received := by
  unfold handleNext World.received
  rw [World.run_bind, show World.run get world = (world, world) from rfl]
  unfold pending at waiting
  cases subscribed : world.cache.listener.subscription with
  | none =>
      rw [subscribed] at waiting
      cases waiting
  | some id =>
      rw [subscribed] at waiting
      have found : (world.store.subscribers.filter fun subscriber => subscriber.id = id).flatMap
          Subscriber.pending = notification :: later := waiting
      simp only [Option.bind_some, Store.receive, found]
      rfl

/-- Handling a notification that can be applied is applying it. -/
theorem run_handle_of_applied {notification : Notification} {applied : Bool} {after : World}
    (outcome : (Cache.applyNotification setting notification).outcome world = (.ok applied, after)) :
    (World.run (handle setting notification) world).2 = after := by
  unfold handle
  rw [World.run_bind, WorldM.run_run, outcome]
  rfl

end Listener

namespace World

variable {setting : Setting} {table : TableSchema} {Allowed : String → Prop} {first last : World}

/-- Worlds that a world comes to by writes to rows of a table, no two of which ever have a list instance
in common, and by the listener handling one announcement at a time. -/
inductive Upkeep (setting : Setting) (table : TableSchema) (Allowed : String → Prop)
    (first : World) : World → Prop where
  | start : Upkeep setting table Allowed first first
  | write {last : World} (earlier : Upkeep setting table Allowed first last) (write : StoreWrite)
      {rowKey : String} (owned : setting.schema.splitStoreKey write.key = some (table, rowKey))
      (apart : table.StandsApart (write.apply last.store).rows) (allowed : Allowed rowKey) :
      Upkeep setting table Allowed first { last with store := write.apply last.store }
  | handle {last : World} (earlier : Upkeep setting table Allowed first last) :
      Upkeep setting table Allowed first (World.run (Listener.handleNext setting) last).2

/-- Whether a table with rows that stand apart is cached as a new build gives it, and covered by a live
subscription of the listener on which nothing waits. -/
structure IsFresh (setting : Setting) (table : TableSchema) (world : World) : Prop where
  known : setting.schema.table? table.name = some table
  numbered : world.store.IsNumbered
  available : world.store.available = true
  apart : table.StandsApart world.store.rows
  built : ∃ document, world.cache.document? table.name = some document ∧
    IsBuilt setting world.store.rows table.name document
  covered : ∃ subscriber, world.subscriber? = some subscriber ∧
    Channel.ofTable world.store.database table.name table.keyDelimiter ∈ subscriber.patterns ∧
    subscriber.pending = []

/-- Whether what waits for the listener brings the cached document of a table up to date. -/
structure IsUpheld (setting : Setting) (table : TableSchema) (queue : List (String × ChangeKind))
    (world : World) : Prop where
  numbered : world.store.IsNumbered
  available : world.store.available = true
  apart : table.StandsApart world.store.rows
  covered : ∃ subscriber, world.subscriber? = some subscriber ∧
    Channel.ofTable world.store.database table.name table.keyDelimiter ∈ subscriber.patterns ∧
    subscriber.pending = queue.map (Cache.announcement world.store.database table)
  changes : ∀ change ∈ queue,
    setting.schema.splitStoreKey (table.storeKey change.1) = some (table, change.1) ∧
      (∃ combinations, table.expandKey change.1 = .ok combinations) ∧ table.MergesPlainly change.1
  cached : ∃ document nodes, world.cache.document? table.name = some document ∧
    document.Lists table nodes ∧ ∀ key, table.CatchesUp world.store.rows nodes queue key

private theorem IsFresh.isUpheld (fresh : first.IsFresh setting table) :
    first.IsUpheld setting table [] where
  numbered := fresh.numbered
  available := fresh.available
  apart := fresh.apart
  covered := fresh.covered
  changes _ member := absurd member List.not_mem_nil
  cached := by
    obtain ⟨document, there, again, known, made⟩ := fresh.built
    cases fresh.known.symm.trans known
    obtain ⟨nodes, translated, lists⟩ := Document.exists_lists_of_ofRows known made
    exact ⟨document, nodes, there, lists, fresh.apart.catchesUp translated⟩

variable {queue : List (String × ChangeKind)}

/-- What waits is what the listener has still to be told of. -/
theorem IsUpheld.pending_eq (upheld : last.IsUpheld setting table queue) :
    Listener.pending last = queue.map (Cache.announcement last.store.database table) := by
  obtain ⟨subscriber, listening, _, waiting⟩ := upheld.covered
  rw [World.pending_eq upheld.numbered, listening]
  exact waiting

/-- A write adds what it announces to what waits. -/
theorem IsUpheld.write (upheld : last.IsUpheld setting table queue) (sound : setting.schema.IsSound)
    {write : StoreWrite} {rowKey : String}
    (owned : setting.schema.splitStoreKey write.key = some (table, rowKey))
    (apart : table.StandsApart (write.apply last.store).rows) (plain : table.MergesPlainly rowKey) :
    IsUpheld setting table
      (queue ++ (write.kinds last.store).map fun kind => (rowKey, kind))
      { last with store := write.apply last.store } := by
  have rowOwned := (Schema.splitStoreKey_sound sound owned).2
  have own := TableSchema.rowKey?_eq_some_iff.mp rowOwned
  have store := write.apply_eq last.store
  have database : (write.apply last.store).database = last.store.database := by rw [store]
  have heard : (write.apply last.store).subscribers = last.store.subscribers.map
      (Subscriber.hear last.store.database write.key (write.kinds last.store)) := by rw [store]
  have keepsIds := Subscriber.id_hear last.store.database write.key (write.kinds last.store)
  refine ⟨upheld.numbered.map keepsIds heard (by rw [store]), ?_, apart, ?_, ?_, ?_⟩
  · rw [store]
    exact upheld.available
  · obtain ⟨subscriber, listening, covered, waiting⟩ := upheld.covered
    have listens : World.subscriber? { last with store := write.apply last.store } =
        last.subscriber?.map
          (Subscriber.hear last.store.database write.key (write.kinds last.store)) :=
      subscriber?_map keepsIds rfl heard
    rw [listening, Option.map_some] at listens
    refine ⟨_, listens, ?_⟩
    have covers : (subscriber.patterns.any fun pattern =>
        Channel.covered pattern (Channel.ofKey last.store.database write.key)) = true :=
      List.any_eq_true.mpr ⟨_, covered, Channel.covered_ofTable _ rowOwned⟩
    rw [Subscriber.hear, if_pos covers, database]
    refine ⟨covered, ?_⟩
    simp only [waiting, List.map_append, List.map_map, own]
    rfl
  · intro change member
    rcases List.mem_append.mp member with before | new
    · exact upheld.changes change before
    · obtain ⟨kind, announced, rfl⟩ := List.mem_map.mp new
      refine ⟨own ▸ owned, ?_, plain⟩
      rcases StoreWrite.isSome_of_kinds (List.ne_nil_of_mem announced) with before | after
      · exact upheld.apart.expands rowKey (own ▸ before :)
      · exact apart.expands rowKey (own ▸ after :)
  · obtain ⟨document, nodes, there, lists, catches⟩ := upheld.cached
    exact ⟨document, nodes, there, lists, fun key => (catches key).write upheld.apart apart own⟩

/-- Handling an announcement takes it off what waits. -/
theorem IsUpheld.handle (upheld : last.IsUpheld setting table queue) (sound : table.IsSound)
    (known : setting.schema.table? table.name = some table) :
    IsUpheld setting table queue.tail (World.run (Listener.handleNext setting) last).2 := by
  cases queue with
  | nil =>
      rw [Listener.run_handleNext_of_idle upheld.pending_eq]
      exact upheld
  | cons change queue =>
      obtain ⟨owned, expands, plain⟩ := upheld.changes change List.mem_cons_self
      obtain ⟨document, nodes, there, lists, catches⟩ := upheld.cached
      have received := last.received_eq
      have sameRows : last.received.store.rows = last.store.rows := by
        rw [received]
      obtain ⟨later, more, renewed, laterLists, ofKeys⟩ := Document.lists_renewRow known lists expands
        (table.heldFor last.received.store.rows change)
      have stillAvailable : last.received.store.available = true := by
        rw [received]
        exact upheld.available
      have stillThere : last.received.cache.document? table.name = some document := by
        rw [received]
        exact there
      obtain ⟨after, applied, rows, cached⟩ := Cache.exists_outcome_applyNotification owned
        stillAvailable stillThere renewed last.store.database
      have handled : (World.run (Listener.handleNext setting) last).2 = after := by
        rw [Listener.run_handleNext_of_pending upheld.pending_eq]
        exact Listener.run_handle_of_applied applied
      have same := Listener.sameWatch_handleNext setting last
      rw [handled] at same ⊢
      have database : after.store.database = last.store.database := by
        rw [same.database, received]
      refine ⟨same.isNumbered (isNumbered_received upheld.numbered), ?_, ?_, ?_, ?_, ?_⟩
      · rw [same.available, received]
        exact upheld.available
      · rw [rows, sameRows]
        exact upheld.apart
      · obtain ⟨subscriber, listening, covered, waiting⟩ := upheld.covered
        refine ⟨{ subscriber with pending := subscriber.pending.tail }, ?_, ?_, ?_⟩
        · rw [same.subscriber?_eq, subscriber?_received, listening]
          rfl
        · rw [database]
          exact covered
        · rw [database, waiting]
          rfl
      · exact fun other member => upheld.changes other (List.mem_cons_of_mem _ member)
      · refine ⟨later, more, cached, laterLists, fun key => ?_⟩
        rw [rows, sameRows]
        rw [sameRows] at ofKeys
        exact (catches key).handle sound plain (ofKeys key)

/-- However rows are written and announcements handled, what waits brings the document up to date. -/
theorem Upkeep.exists_isUpheld (run : Upkeep setting table table.MergesPlainly first last)
    (sound : setting.schema.IsSound) (fresh : first.IsFresh setting table) :
    ∃ queue, last.IsUpheld setting table queue := by
  induction run with
  | start => exact ⟨[], fresh.isUpheld⟩
  | write _ write owned apart plain ih =>
      obtain ⟨queue, upheld⟩ := ih
      exact ⟨_, upheld.write sound owned apart plain⟩
  | handle _ ih =>
      obtain ⟨queue, upheld⟩ := ih
      exact ⟨_, upheld.handle (sound table.name table fresh.known).2 fresh.known⟩

/-- **Keeping up.** From a freshly built document of a covered table, after any writes to rows of the
table that merge plainly and any handling of their announcements in between, the cached document is read
back to the same rows as a new build whenever nothing waits. -/
theorem Upkeep.toRows_eq_of_idle [PatternReader] {modules : List ModuleDecl} {delimiter : String}
    (built : Schema.build modules delimiter = .ok setting.schema)
    (fresh : first.IsFresh setting table)
    (run : Upkeep setting table table.MergesPlainly first last)
    (idle : Listener.pending last = []) :
    ∃ document rebuilt rows, last.cache.document? table.name = some document ∧
      ((Cache.build setting table.name).outcome last).1 = .ok rebuilt ∧
      document.toRows setting.schema = .ok rows ∧ rebuilt.toRows setting.schema = .ok rows := by
  obtain ⟨queue, upheld⟩ := run.exists_isUpheld (Schema.isSound_of_build built) fresh
  obtain rfl : queue = [] := List.map_eq_nil_iff.mp (upheld.pending_eq.symm.trans idle)
  obtain ⟨document, nodes, there, lists, catches⟩ := upheld.cached
  obtain ⟨rebuilt, others, made, translated, rebuiltLists⟩ :=
    Cache.exists_outcome_build fresh.known upheld.available upheld.apart
  have same : document.toRows setting.schema = rebuilt.toRows setting.schema := by
    refine (lists.toRows_eq_iff fresh.known rebuiltLists).mpr fun key => ?_
    obtain ⟨content, owner, caught⟩ := catches key
    rw [caught.current rfl, (upheld.apart.ofKey_rowsNodes translated caught.owns).2]
  exact ⟨document, rebuilt, _, there, made, same.trans (rebuiltLists.toRows_eq fresh.known),
    rebuiltLists.toRows_eq fresh.known⟩

/-- A world in which a table is cached as its rows are stored, with a subscription for its changes. -/
def watching (setting : Setting) (name : String) (rows : ByName Fields) : World where
  store :=
    { database := 0
      rows
      subscribers := [{ id := 0, patterns := [Channel.ofTable 0 name Schema.usualDelimiter] }]
      subscriptions := 1 }
  cache :=
    { entries := (∅ : ByName CacheEntry).insert name {
        document := (setting.schema.table? name).bind fun table => (Document.ofRows setting.schema
          ((∅ : TableRows).insert name (Store.tableRows table rows))).toOption
        createdAt := 0
        expirySecs := 0 }
      listener := { subscription := some 0 } }

/-- There, the cached document is as the rows are stored, if their keys are of the table. -/
theorem exists_isBuilt_watching {name : String} {rows : ByName Fields}
    (known : setting.schema.table? table.name = some table) (named : table.name = name)
    (expands : ∀ rowKey, table.Stores rows rowKey →
      ∃ combinations, table.expandKey rowKey = .ok combinations) :
    ∃ document, (watching setting name rows).cache.document? table.name = some document ∧
      IsBuilt setting rows table.name document := by
  subst named
  obtain ⟨document, _, made, _⟩ := Cache.exists_lists_of_expands known expands
  exact ⟨document, by simp [watching, Cache.document?, known, made, Except.toOption], table, known,
    made⟩

private theorem isFresh_watching {name : String} {rows : ByName Fields}
    (known : setting.schema.table? table.name = some table) (named : table.name = name)
    (usual : table.keyDelimiter = Schema.usualDelimiter) (apart : table.StandsApart rows) :
    (watching setting name rows).IsFresh setting table := by
  refine ⟨known, ⟨?_, List.nodup_singleton 0⟩, rfl, apart,
    exists_isBuilt_watching known named apart.expands, ?_⟩
  · intro subscriber member
    cases List.mem_singleton.mp member
    exact Nat.zero_lt_one
  · subst named
    refine ⟨_, rfl, ?_, rfl⟩
    rw [usual]
    exact List.mem_singleton_self _

/-- A module with a table whose rows may name several list instances. -/
def groupedModules (mapLeaves : Option (List String)) : List ModuleDecl :=
  [{ name := "m", tables := [
    { name := "T", keyPattern := "T|(\x7bk\x7d,)*", leaves := [{ name := "f" }], mapLeaves }] }]

/-- A setting with this table. -/
def groupedSetting (mapLeaves : Option (List String)) : Setting where
  schema := .ofModules (groupedModules mapLeaves)
  database := 0
  batchSize := 100

/-- A row of the table, stored. -/
def groupedRow (rowKey : String) : ByName Fields :=
  (∅ : ByName Fields).insert ("T|" ++ rowKey) ((∅ : Fields).insert "f" "u")

/-- A row is removed and written again before the announcements are handled. -/
theorem Upkeep.toRows_eq_groupedRow :
    let setting := groupedSetting none
    let first := watching setting "T" (groupedRow "a,b")
    ∃ table last, first.IsFresh setting table ∧
      Upkeep setting table table.MergesPlainly first last ∧ Listener.pending last = [] ∧
      ∃ document rebuilt rows, last.cache.document? table.name = some document ∧
        ((Cache.build setting table.name).outcome last).1 = .ok rebuilt ∧
        document.toRows setting.schema = .ok rows ∧ rebuilt.toRows setting.schema = .ok rows := by
  intro setting first
  let remove := StoreWrite.deleteRow "T|a,b"
  let write := StoreWrite.setFields "T|a,b" ((∅ : Fields).insert "f" "v")
  have faultless : (Schema.build (groupedModules none) Schema.usualDelimiter).isOk := by
    decide +kernel
  have built := Schema.build_eq_ofModules faultless
  have facts : (setting.schema.splitStoreKey "T|a,b").any fun found =>
      found.1.name = "T" ∧ found.1.keyDelimiter = Schema.usualDelimiter ∧ found.2 = "a,b" ∧
        found.1.MergesPlainly "a,b" ∧ found.1.StandsApart (groupedRow "a,b") ∧
        found.1.StandsApart (remove.apply first.store).rows ∧
        found.1.StandsApart (write.apply (remove.apply first.store)).rows := by
    decide +kernel
  obtain ⟨⟨table, rowKey⟩, owned, holds⟩ := (Option.any_eq_true _ _).mp facts
  obtain ⟨named, usual, rfl, plain, apart, removed, written⟩ := of_decide_eq_true holds
  have known := (Schema.splitStoreKey_sound (Schema.isSound_of_build built) owned).1
  have fresh : first.IsFresh setting table := isFresh_watching known named usual apart
  obtain ⟨last, run, idle⟩ : ∃ last, Upkeep setting table table.MergesPlainly first last ∧
      Listener.pending last = [] :=
    ⟨_, .handle (.handle (.write (.write .start remove owned removed plain) write owned written
      plain)), by decide +kernel⟩
  exact ⟨table, last, fresh, run, idle, run.toRows_eq_of_idle built fresh idle⟩

/-- A row that names an entry twice is written, in a table that holds the names and the values of entries
in one leaf: the list instance in the document gets both values, those of a new build one each. -/
theorem upkeep_of_repeatedEntry :
    let setting := groupedSetting (some ["n", "n"])
    let first := watching setting "T" (groupedRow "a,a")
    ∃ table last document rebuilt, first.IsFresh setting table ∧
      Upkeep setting table (fun _ => True) first last ∧ Listener.pending last = [] ∧
        last.cache.document? table.name = some document ∧
        ((Cache.build setting table.name).outcome last).1 = .ok rebuilt ∧
        document.toRows setting.schema ≠ rebuilt.toRows setting.schema := by
  intro setting first
  let write := StoreWrite.setFields "T|a,a" ((∅ : Fields).insert "f" "u")
  have faultless : (Schema.build (groupedModules (some ["n", "n"])) Schema.usualDelimiter).isOk := by
    decide +kernel
  have facts : (setting.schema.splitStoreKey "T|a,a").any fun found =>
      found.1.name = "T" ∧ found.1.keyDelimiter = Schema.usualDelimiter ∧ found.2 = "a,a" ∧
        found.1.StandsApart (groupedRow "a,a") ∧
        found.1.StandsApart (write.apply first.store).rows := by
    decide +kernel
  obtain ⟨⟨table, rowKey⟩, owned, holds⟩ := (Option.any_eq_true _ _).mp facts
  obtain ⟨named, usual, rfl, apart, written⟩ := of_decide_eq_true holds
  have known := (Schema.splitStoreKey_sound
    (Schema.isSound_of_build (Schema.build_eq_ofModules faultless)) owned).1
  have fresh : first.IsFresh setting table := isFresh_watching known named usual apart
  let rowsOf (document : Document) : Option KeyedRows :=
    (document.toRows setting.schema).toOption.bind fun rows => rows["T"]?
  obtain ⟨last, run, idle, differs⟩ : ∃ last, Upkeep setting table (fun _ => True) first last ∧
      Listener.pending last = [] ∧ (last.cache.document? "T").any fun document =>
        ((Cache.build setting "T").outcome last).1.toOption.any fun rebuilt =>
          rowsOf document ≠ rowsOf rebuilt :=
    ⟨_, .handle (.write .start write owned written trivial), by decide +kernel⟩
  obtain ⟨document, there, differs⟩ := (Option.any_eq_true _ _).mp differs
  obtain ⟨rebuilt, made, differs⟩ := (Option.any_eq_true _ _).mp differs
  refine ⟨table, last, document, rebuilt, fresh, run, idle, ?_, ?_, fun same => ?_⟩
  · rw [show table.name = "T" from named]
    exact there
  · rw [show table.name = "T" from named]
    exact Except.toOption_eq_some_iff.mp made
  · exact of_decide_eq_true differs (congrArg
      (fun read => read.toOption.bind fun rows => rows["T"]?) same)

end World

end ConfigVetting
