import ConfigVetting.Document.Overlay
import ConfigVetting.Store.Fetch
import ConfigVetting.World

/-! # Documents in the cache

Building the document of a registered table from the store, reading it, and changing it row by row:
after a notification to what the store holds then, after accepted edits to what they say.
-/

namespace ConfigVetting.Cache

/-- The document of a table as the store holds it. -/
def build (setting : Setting) (name : String) : WorldM Document := do
  let table ← (setting.schema.knownTable name : Except Rejection _)
  let rows ← World.askStore (Store.fetchTable table setting.batchSize)
  let document ← (Document.ofRows setting.schema ((∅ : TableRows).insert name rows) :
    Except Rejection _)
  World.note .cacheBuild [("rows", toString rows.size), ("table", name)]
  return document

/-- Puts a document just built into the cache. -/
def putBuilt (name : String) (document : Document) (expirySecs : Nat) : StateM World Unit :=
  modify fun world =>
    let cache := world.cache
    let entry : CacheEntry := { document := some document, createdAt := world.clock, expirySecs }
    { world with cache := { cache with
      entries := cache.entries.insert name entry
      stats := { cache.stats with builds := cache.stats.builds + 1 } } }

/-- The document of a table, if the table is registered; built anew if it is not there or expired. -/
def read (setting : Setting) (name : String) : WorldM (Option Document) := do
  let world ← get
  match world.cache.entries[name]? with
  | none => return none
  | some entry =>
    match if entry.isExpired world.clock then none else entry.document with
    | some document =>
      World.countUse fun stats => { stats with hits := stats.hits + 1 }
      return some document
    | none =>
      World.countUse fun stats => { stats with misses := stats.misses + 1 }
      World.note .cacheMiss [("table", name)]
      let document ← build setting name
      putBuilt name document entry.expirySecs
      return some document

/-- Drops the document of a table, and tells whether the table is registered. -/
def invalidate (name : String) : StateM World Bool := do
  if name ∈ (← get).cache.entries then
    World.modifyCache fun cache => cache.putDocument name none
    World.countUse fun stats => { stats with invalidations := stats.invalidations + 1 }
    World.note .cacheInvalidate [("table", name)]
    return true
  else return false

/-- Changes the document of a table, if there is one. -/
def changeDocument (name : String) (change : DocumentM Unit) : WorldM Unit := do
  match (← get).cache.document? name with
  | none => return
  | some document =>
    let (outcome, document) := StateT.run (m := Id) (ExceptT.run change) document
    World.modifyCache fun cache => cache.putDocument name (some document)
    match outcome with
    | .ok () => return
    | .error rejection => throw rejection

/-- Folds edited rows into those of their tables that have a document. -/
def fold (setting : Setting) (rows : TableRows) (operation : Operation) : WorldM Unit := do
  if operation = .none then return
  rows.toList.forM fun (name, keyed) => do
    if ((← get).cache.document? name).isNone then return
    let table ← (setting.schema.knownTable name : Except Rejection _)
    changeDocument name do
      keyed.toList.forM fun (rowKey, fields) =>
        Document.overlayRow setting.schema table rowKey (.ofEdit operation fields)
      modify Document.compactIfSparse
    World.countUse fun stats => { stats with folds := stats.folds + 1 }

/-- The fields of a key after a change: none if the row was removed, else what the store holds now. -/
def fieldsAfter (key : String) : ChangeKind → WorldM (Option Fields)
  | .rowDeleted => return none
  | _ => return (← World.askStore (Store.getRows [key])).head?.join

/-- Brings the row of a notification up to date, and tells whether its table has a document. -/
def applyNotification (setting : Setting) (notification : Notification) : WorldM Bool := do
  World.hear notification
  let some key := notification.key | return false
  let some kind := notification.kind | return false
  let some (table, rowKey) := setting.schema.splitStoreKey key | return false
  if ((← get).cache.document? table.name).isNone then return false
  let current ← fieldsAfter key kind
  changeDocument table.name do
    Document.removeRow table rowKey
    match current with
    | some fields => Document.putRow setting.schema table rowKey fields
    | none => pure ()
    modify Document.compactIfSparse
  World.countUse fun stats => { stats with incrementalUpdates := stats.incrementalUpdates + 1 }
  World.note .notificationApplied [("key", key), ("op", kind.payload), ("table", table.name)]
  return true

end ConfigVetting.Cache
