import ConfigVetting.Rows
import ConfigVetting.Store.Fault
import ConfigVetting.Store.Notification

/-! # The store

The stored configuration by store key. Writes always succeed and are announced to the subscribers
whose patterns cover the channel of the key; each subscriber receives its announcements in order.
Reads and new subscriptions fail while the store is unavailable, and are counted only when served.
-/

namespace ConfigVetting

/-- How often the store was read. -/
structure StoreStats where
  keyScans : Nat := 0
  /-- Rows asked for in batches, absent ones included. -/
  rowsFetched : Nat := 0
  batches : Nat := 0
  existsChecks : Nat := 0
  deriving DecidableEq, Repr

/-- A subscription, with the announcements it has not received yet. -/
structure Subscriber where
  id : Nat
  patterns : List String
  pending : List Notification := []
  deriving DecidableEq, Repr

/-- The stored rows and who watches them. -/
structure Store where
  /-- The number of the database, which channels spell out. -/
  database : Nat
  rows : ByName Fields := ∅
  available : Bool := true
  stats : StoreStats := {}
  /-- The live subscriptions, the oldest first. -/
  subscribers : List Subscriber := []
  /-- How many subscriptions there have been. -/
  subscriptions : Nat := 0

/-- A request to the store, which may fail. -/
abbrev StoreM := ExceptT StoreFault (StateM Store)

namespace Store

/-- The fields of a key. -/
def get? (store : Store) (key : String) : Option Fields :=
  store.rows[key]?

/-- The store with rows added without an announcement. -/
def load (store : Store) (rows : ByName Fields) : Store :=
  { store with rows := store.rows ∪ rows }

/-- The store with a change of a key announced. -/
def publish (store : Store) (key : String) (kind : ChangeKind) : Store :=
  let notification := Notification.ofKey store.database key kind
  { store with subscribers := store.subscribers.map fun subscriber =>
      if subscriber.patterns.any fun pattern => Channel.covered pattern notification.channel then
        { subscriber with pending := subscriber.pending ++ [notification] }
      else subscriber }

/-- The store with fields of a key written. -/
def setFields (store : Store) (key : String) (fields : Fields) : Store :=
  let written := store.rows.alter key fun stored => some (stored.getD ∅ ∪ fields)
  { store with rows := written }.publish key .fieldsSet

/-- The store with a field of a key removed, and whether it was there. A key without fields left is
removed as a whole, which is announced too. -/
def deleteField (store : Store) (key field : String) : Bool × Store :=
  match store.get? key with
  | none => (false, store)
  | some stored =>
    let removed := stored.contains field
    let fields := stored.erase field
    let rows := if fields.isEmpty then store.rows.erase key else store.rows.insert key fields
    let store := { store with rows }
    let store := if removed then store.publish key .fieldsDeleted else store
    (removed, if fields.isEmpty then store.publish key .rowDeleted else store)

/-- The store with a key removed, and whether it was there. -/
def deleteRow (store : Store) (key : String) : Bool × Store :=
  if key ∈ store.rows then
    (true, { store with rows := store.rows.erase key }.publish key .rowDeleted)
  else (false, store)

/-- The store without a subscription. -/
def cancel (store : Store) (id : Nat) : Store :=
  { store with subscribers := store.subscribers.filter fun subscriber => subscriber.id ≠ id }

/-- The announcements that a subscription has not received, and the store with them received. -/
def drain (store : Store) (id : Nat) : List Notification × Store :=
  ((store.subscribers.filter fun subscriber => subscriber.id = id).flatMap Subscriber.pending,
    { store with subscribers := store.subscribers.map fun subscriber =>
        if subscriber.id = id then { subscriber with pending := [] } else subscriber })

/-- The oldest announcement that a subscription has not received, and the store with it received. -/
def receive (store : Store) (id : Nat) : Option (Notification × Store) :=
  match (store.subscribers.filter fun subscriber => subscriber.id = id).flatMap
      Subscriber.pending with
  | [] => none
  | notification :: _ => some (notification,
      { store with subscribers := store.subscribers.map fun subscriber =>
          if subscriber.id = id then { subscriber with pending := subscriber.pending.tail }
          else subscriber })

/-- Fails while the store is unavailable. -/
def checkAvailable : StoreM Unit := do
  if !(← get).available then throw (.unavailable "store marked unavailable")

/-- The keys of an ordered list from a text on that start with it. -/
def keysFrom (start : String) (keys : List String) : List String :=
  (keys.dropWhile fun key => key < start).takeWhile (Text.startsWith start)

/-- The stored keys that start with a text, in order. -/
def keys (start : String) : StoreM (List String) := do
  checkAvailable
  modify fun store => { store with stats.keyScans := store.stats.keyScans + 1 }
  return keysFrom start (← get).rows.keys

/-- The fields of each of some keys. -/
def getRows (keys : List String) : StoreM (List (Option Fields)) := do
  checkAvailable
  modify fun store => { store with
    stats.batches := store.stats.batches + 1
    stats.rowsFetched := store.stats.rowsFetched + keys.length }
  return keys.map (← get).get?

/-- Whether a key is stored. -/
def holds (key : String) : StoreM Bool := do
  checkAvailable
  modify fun store => { store with stats.existsChecks := store.stats.existsChecks + 1 }
  return key ∈ (← get).rows

/-- A new subscription to the channels that some patterns cover. -/
def subscribe (patterns : List String) : StoreM Nat := do
  checkAvailable
  modifyGet fun store => (store.subscriptions, { store with
    subscribers := store.subscribers ++ [{ id := store.subscriptions, patterns }]
    subscriptions := store.subscriptions + 1 })

end Store

/-- A change of one stored key. -/
inductive StoreWrite where
  | setFields (key : String) (fields : Fields)
  | deleteField (key field : String)
  | deleteRow (key : String)

namespace StoreWrite

/-- The key that a write may change. -/
def key : StoreWrite → String
  | setFields key _ => key
  | deleteField key _ => key
  | deleteRow key => key

/-- The store after a write. -/
def apply (store : Store) : StoreWrite → Store
  | setFields key fields => store.setFields key fields
  | deleteField key field => (store.deleteField key field).2
  | deleteRow key => (store.deleteRow key).2

end StoreWrite

end ConfigVetting
