import ConfigVetting.Decimal.Binary64
import ConfigVetting.Document.Basic
import ConfigVetting.Rows

/-! # Cached tables

A cache keeps documents of whole tables. A table is registered before its document is built, and
stays registered when the document is dropped. A listener keeps one subscription that covers the
registered tables; it is told of changes of the set of tables by commands, which wait in a queue.
-/

namespace ConfigVetting

/-- A registered table. -/
structure CacheEntry where
  /-- The document of the table, unless it is to be built at the next read. -/
  document : Option Document := none
  /-- When the document was built, in seconds. -/
  createdAt : Int
  /-- The greatest age of the document in seconds, not reached while it is in use; 0 for no limit. -/
  expirySecs : Nat

/-- How often the cache was used. -/
structure CacheStats where
  /-- Reads of documents that were there. -/
  hits : Nat := 0
  /-- Reads of documents that had to be built. -/
  misses : Nat := 0
  builds : Nat := 0
  /-- Changes of single rows after notifications. -/
  incrementalUpdates : Nat := 0
  /-- Tables that accepted edits were folded into. -/
  folds : Nat := 0
  invalidations : Nat := 0
  deriving DecidableEq, Repr

/-- What the listener is told to do. -/
inductive ListenerCommand where
  /-- Replace the subscription by one to some channels, or by none if there are none. -/
  | resubscribe (channels : List String)
  | stop
  deriving DecidableEq, Repr

/-- The listener for changes in the store. -/
structure Listener where
  running : Bool := true
  /-- The subscription in the store. -/
  subscription : Option Nat := none
  /-- Commands not followed yet, the oldest first. -/
  commands : List ListenerCommand := []
  deriving DecidableEq, Repr

/-- The registered tables and the listener for their changes. -/
structure Cache where
  entries : ByName CacheEntry := ∅
  stats : CacheStats := {}
  listener : Listener := {}

/-- A number without a sign read as one with a sign, both of 64 bits. -/
def signed64 (value : Nat) : Int :=
  (Int.ofNat value).bmod (Nat.pow 2 64)

namespace CacheEntry

/-- Whether the document of an entry is too old at some time. The limit is held against the age as a
number with a sign. -/
def isExpired (entry : CacheEntry) (now : Int) : Bool :=
  0 < entry.expirySecs && signed64 entry.expirySecs ≤ now - entry.createdAt

end CacheEntry

namespace CacheStats

/-- How many reads there were. -/
def reads (stats : CacheStats) : Nat :=
  stats.hits + stats.misses

/-- The share of reads that found their document; zero before the first read. -/
def hitRatio (stats : CacheStats) : Option Binary64 :=
  if stats.reads = 0 then some (.zero false)
  else do
    let hits ← Binary64.ofNat? stats.hits
    let reads ← Binary64.ofNat? stats.reads
    hits.div? reads

end CacheStats

namespace Cache

/-- The registered tables, in order. -/
def tables (cache : Cache) : List String :=
  cache.entries.keys

/-- The document of a table, if the table is registered and its document built. -/
def document? (cache : Cache) (table : String) : Option Document :=
  cache.entries[table]?.bind CacheEntry.document

/-- The cache with another document for a registered table. -/
def putDocument (cache : Cache) (table : String) (document : Option Document) : Cache :=
  { cache with entries := cache.entries.modify table fun entry => { entry with document } }

/-- The cache with a command for the listener, if it is running. -/
def post (cache : Cache) (command : ListenerCommand) : Cache :=
  if cache.listener.running then
    { cache with listener.commands := cache.listener.commands ++ [command] }
  else cache

end Cache

end ConfigVetting
