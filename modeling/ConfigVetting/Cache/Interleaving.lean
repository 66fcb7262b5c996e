import ConfigVetting.Cache.Listener

/-! # Writes, calls and the listener side by side

Callers register and unregister tables while rows are written and the listener goes on. A call changes
the registered tables and takes down their channels in one part, tells the listener the channels in
another, and builds the table when the listener has followed; anything may happen in between. The
listener takes one command or one notification at a time, in either order. In the middle of a command it
has given up its subscription and not yet made the new one.
-/

namespace ConfigVetting

/-- A call that changes the registered tables, by what it has still to do. -/
inductive CacheCall where
  /-- A table is registered, and the listener is to be told the channels. -/
  | announcing (table : String) (expirySecs : Nat) (channels : List String)
  /-- The listener was told, and the table is built once so many commands are followed. -/
  | awaiting (table : String) (expirySecs : Nat) (ticket : Nat)
  /-- A table is unregistered, and the listener is to be told the channels. -/
  | retracting (channels : List String)
  deriving DecidableEq, Repr

/-- The table that a call registers and has not built yet. -/
def CacheCall.adding? : CacheCall → Option String
  | announcing table _ _ => some table
  | awaiting table _ _ => some table
  | retracting _ => none

/-- The channels that a call has still to tell the listener. -/
def CacheCall.untold? : CacheCall → Option (List String)
  | announcing _ _ channels => some channels
  | awaiting _ _ _ => none
  | retracting channels => some channels

/-- A write that changed a row of a table with a document. -/
structure DueWrite where
  number : Nat
  key : String
  table : String
  deriving DecidableEq, Repr

/-- What becomes of the writes. They are numbered in the order in which they are made. -/
structure WriteRecord where
  made : Nat := 0
  /-- The writes that changed a row of a table with a document, until that document is dropped. -/
  due : List DueWrite := []
  /-- Of which write each notification is that the listener has not handled. -/
  waiting : List Nat := []
  /-- What the cache was notified of, each notification with the number of its write. -/
  handled : List (Nat × Notification) := []
  /-- The writes without a notification because there was no subscription, and those whose
  notifications were given up with a subscription before any of them was handled. -/
  lost : List Nat := []

/-- The world, and what callers and the listener are in the middle of. -/
structure SharedCache where
  world : World
  calls : List CacheCall := []
  /-- The channels of the command that the listener is in the middle of. -/
  renewing : Option (List String) := none
  /-- How many commands the listener has followed. -/
  followed : Nat := 0
  /-- The channels that the listener was told last. -/
  announced : List String := []
  writes : WriteRecord := {}

namespace World

/-- The subscription of the listener in the store. -/
def subscriber? (world : World) : Option Subscriber :=
  world.cache.listener.subscription.bind fun id =>
    world.store.subscribers.find? fun subscriber => subscriber.id = id

/-- The tables with a document that have a row which a write changes. -/
def changedTables (setting : Setting) (world : World) (write : StoreWrite) : List String :=
  if (write.apply world.store).get? write.key = world.store.get? write.key then []
  else world.cache.tables.filter fun name => (world.cache.document? name).isSome &&
    ((setting.schema.table? name).bind fun table => table.rowKey? write.key).isSome

end World

namespace SharedCache

/-- A store with rows, and a cache without tables whose listener has just begun. -/
def start (world : World) : SharedCache where
  world := { world with cache := {} }

/-- How many commands the listener has still to follow. -/
def outstanding (shared : SharedCache) : Nat :=
  shared.renewing.toList.length + shared.world.cache.listener.commands.length

/-- Whether the listener has nothing to do. -/
def IsQuiet (shared : SharedCache) : Prop :=
  shared.world.cache.listener.commands = [] ∧ shared.renewing = none ∧
    Listener.pending shared.world = []

instance (shared : SharedCache) : Decidable shared.IsQuiet :=
  inferInstanceAs (Decidable (_ ∧ _ ∧ _))

/-- What is due to tables whose document was dropped is so no longer. -/
def forgetDropped (shared : SharedCache) : SharedCache :=
  { shared with writes.due := shared.writes.due.filter fun due =>
      (shared.world.cache.document? due.table).isSome }

/-- A write. -/
def write (setting : Setting) (shared : SharedCache) (write : StoreWrite) : SharedCache :=
  let number := shared.writes.made
  let world := { shared.world with store := write.apply shared.world.store }
  let notified := (Listener.pending world).drop (Listener.pending shared.world).length
  { shared with
    world
    writes := { shared.writes with
      made := number + 1
      due := shared.writes.due ++
        (shared.world.changedTables setting write).map fun table => ⟨number, write.key, table⟩
      waiting := shared.writes.waiting ++ notified.map fun _ => number
      lost := if shared.world.subscriber?.isSome then shared.writes.lost
        else shared.writes.lost ++ [number] } }

/-- A call that registers a table begins. -/
def beginAdd (setting : Setting) (shared : SharedCache) (name : String) (expirySecs : Nat) :
    SharedCache :=
  let (channels, world) := World.run (Cache.enroll setting name expirySecs) shared.world
  { shared with world, calls := shared.calls ++ [.announcing name expirySecs channels] }

/-- A call that unregisters a table begins; it is over if the table is not registered. -/
def beginRemove (setting : Setting) (shared : SharedCache) (name : String) : SharedCache :=
  match World.run (Cache.withdraw setting name) shared.world with
  | (some channels, world) => { shared with world, calls := shared.calls ++ [.retracting channels] }
  | (none, world) => { shared with world }

/-- The listener is told channels. -/
def tell (shared : SharedCache) (channels : List String) : SharedCache :=
  { shared with
    world := (World.run (Cache.announce channels) shared.world).2
    announced := channels }

/-- A call that registers a table tells the listener the channels. -/
def tellAdd (shared : SharedCache) (name : String) (expirySecs : Nat) (channels : List String) :
    SharedCache :=
  let told := shared.tell channels
  { told with calls := shared.calls.erase (.announcing name expirySecs channels) ++
      [.awaiting name expirySecs (told.followed + told.outstanding)] }

/-- A call that unregisters a table tells the listener the channels, and is over. -/
def tellRemove (shared : SharedCache) (channels : List String) : SharedCache :=
  { shared.tell channels with calls := shared.calls.erase (.retracting channels) }

/-- A call that registers a table builds it and is over, or unregisters it. -/
def finishAdd (setting : Setting) (shared : SharedCache) (name : String) (expirySecs : Nat)
    (ticket : Nat) : SharedCache :=
  let calls := shared.calls.erase (.awaiting name expirySecs ticket)
  match World.run (Cache.complete setting name expirySecs) shared.world with
  | (.ok (), world) => { shared with world, calls }
  | (.error (_, channels), world) => { shared with world, calls := calls ++ [.retracting channels] }

/-- The subscription is given up, and with it the notifications that wait. -/
def giveUp (shared : SharedCache) (world : World) : SharedCache :=
  { shared with
    world
    writes := { shared.writes with
      waiting := []
      lost := shared.writes.lost ++
        shared.writes.waiting.filter fun number => number ∉ shared.writes.handled.map Prod.fst } }

/-- The listener takes a command. -/
def takeCommand (shared : SharedCache) : SharedCache :=
  match World.run Listener.takeCommand shared.world with
  | (none, world) => { shared with world }
  | (some (.resubscribe channels), world) =>
    { shared.giveUp (World.run Listener.unsubscribe world).2 with renewing := some channels }
  | (some .stop, world) => shared.giveUp (World.run (Listener.follow .stop) world).2

/-- The listener makes the subscription of the command that it is in the middle of. -/
def renew (shared : SharedCache) (channels : List String) : SharedCache :=
  { shared with
    world := (World.run (Listener.subscribe channels) shared.world).2
    renewing := none
    followed := shared.followed + 1 }

/-- The listener handles a notification. -/
def handle (setting : Setting) (shared : SharedCache) : SharedCache :=
  let world := (World.run (Listener.handleNext setting) shared.world).2
  let heard := world.heard.drop shared.world.heard.length
  { shared with
    world
    writes := { shared.writes with
      waiting := shared.writes.waiting.tail
      handled := shared.writes.handled ++ shared.writes.waiting.zip heard } }

/-- One step of a caller, a writer or the listener. -/
inductive Step (setting : Setting) (shared : SharedCache) : SharedCache → Prop where
  | write (write : StoreWrite) : Step setting shared (shared.write setting write)
  | setAvailable (available : Bool) :
      Step setting shared { shared with world.store.available := available }
  | beginAdd (name : String) (expirySecs : Nat) (known : (setting.schema.table? name).isSome) :
      Step setting shared (shared.beginAdd setting name expirySecs)
  | beginRemove (name : String) : Step setting shared (shared.beginRemove setting name)
  | tellAdd (name : String) (expirySecs : Nat) (channels : List String)
      (begun : .announcing name expirySecs channels ∈ shared.calls) :
      Step setting shared (shared.tellAdd name expirySecs channels)
  | tellRemove (channels : List String) (begun : .retracting channels ∈ shared.calls) :
      Step setting shared (shared.tellRemove channels)
  | finishAdd (name : String) (expirySecs ticket : Nat)
      (begun : .awaiting name expirySecs ticket ∈ shared.calls)
      (followed : ticket ≤ shared.followed ∨ shared.world.cache.listener.running = false) :
      Step setting shared (shared.finishAdd setting name expirySecs ticket)
  | invalidate (name : String) :
      Step setting shared
        { shared with world := (World.run (Cache.invalidate name) shared.world).2 }
  | stop : Step setting shared { shared with world.cache := shared.world.cache.post .stop }
  | takeCommand (idle : shared.renewing = none) : Step setting shared shared.takeCommand
  | renew (channels : List String) (amid : shared.renewing = some channels) :
      Step setting shared (shared.renew channels)
  | handle (idle : shared.renewing = none) : Step setting shared (shared.handle setting)

/-- What steps lead to from the start of a cache through states that keep a rule. -/
inductive Reaches (setting : Setting) (Rule : SharedCache → Prop) (world : World) :
    SharedCache → Prop where
  | start (rule : Rule (start world)) : Reaches setting Rule world (start world)
  | step {shared later : SharedCache} (run : Reaches setting Rule world shared)
      (next : Step setting shared later) (rule : Rule later) :
      Reaches setting Rule world later.forgetDropped

/-- Whether calls are made one at a time. -/
def IsSequential (shared : SharedCache) : Prop :=
  shared.calls.length ≤ 1

instance (shared : SharedCache) : Decidable shared.IsSequential :=
  inferInstanceAs (Decidable (_ ≤ _))

/-- Whether no more than one call has still to tell the listener channels, and no call has unregistered a
table that another one is adding. -/
def IsOrderly (shared : SharedCache) : Prop :=
  (shared.calls.filterMap CacheCall.untold?).length ≤ 1 ∧
    ∀ name ∈ shared.calls.filterMap CacheCall.adding?, name ∈ shared.world.cache.entries

instance (shared : SharedCache) : Decidable shared.IsOrderly :=
  inferInstanceAs (Decidable (_ ∧ _))

end SharedCache

end ConfigVetting
