import ConfigVetting.Cache.Documents

/-! # The cache and its listener

Registering and unregistering tables, and the steps of the listener. A change of the registered
tables tells the listener the channels they have at that moment; the listener gives up its
subscription and makes a new one. A registered table is built only after the listener has followed,
so that no write to it goes unnoticed. Between calls the listener handles the notifications it
receives in order. Each call is put together from parts that no other caller can come between.
-/

namespace ConfigVetting

namespace Cache

/-- The channels of the registered tables. -/
def channels (setting : Setting) (cache : Cache) : List String :=
  (cache.tables.filterMap setting.schema.table?).map fun table =>
    Channel.ofTable setting.database table.name table.keyDelimiter

/-- The cache with a table registered whose document is not built yet. -/
def register (cache : Cache) (name : String) (now : Int) (expirySecs : Nat) : Cache :=
  { cache with entries := cache.entries.insert name { createdAt := now, expirySecs } }

/-- The cache without a table. -/
def unregister (cache : Cache) (name : String) : Cache :=
  { cache with entries := cache.entries.erase name }

end Cache

namespace Listener

/-- Gives up the subscription. -/
def unsubscribe : StateM World Unit :=
  modify fun world =>
    let listener := world.cache.listener
    { world with
      store := match listener.subscription with
        | some id => world.store.cancel id
        | none => world.store
      cache.listener := { listener with subscription := none } }

/-- Makes a subscription to some channels, unless there are none; none is left if that fails. -/
def subscribe (channels : List String) : StateM World Unit := do
  if channels.isEmpty then return
  match ← World.tryStore (Store.subscribe channels) with
  | .error _ => return
  | .ok id =>
    World.note .listenerResubscribed [("channels", toString channels.length)]
    World.modifyCache fun cache => { cache with listener.subscription := some id }

/-- Follows a command. -/
def follow : ListenerCommand → StateM World Unit
  | .resubscribe channels => do
    unsubscribe
    subscribe channels
  | .stop => do
    World.note .listenerStopped []
    unsubscribe
    World.modifyCache fun cache => { cache with listener.running := false, listener.commands := [] }

/-- Takes the oldest command out of the queue, if there is one. -/
def takeCommand : StateM World (Option ListenerCommand) :=
  modifyGet fun world =>
    match world.cache.listener.commands with
    | [] => (none, world)
    | command :: later => (some command, { world with cache.listener.commands := later })

/-- Follows the oldest command, if there is one. -/
def followNext : StateM World Unit := do
  match ← takeCommand with
  | none => return
  | some command => follow command

/-- Handles a notification; the document of a table that cannot be brought up to date is dropped. -/
def handle (setting : Setting) (notification : Notification) : StateM World Unit := do
  match ← (Cache.applyNotification setting notification).run with
  | .ok _ => return
  | .error rejection =>
    World.note .notificationFailed [("channel", notification.channel),
      ("code", rejection.code.text), ("error", rejection.message)]
    match notification.key.bind setting.schema.splitStoreKey with
    | some (table, _) => discard (Cache.invalidate table.name)
    | none => return

/-- The notifications that the listener has not handled yet. -/
def pending (world : World) : List Notification :=
  match world.cache.listener.subscription with
  | some id => (world.store.drain id).1
  | none => []

/-- Handles the oldest notification, if there is one. -/
def handleNext (setting : Setting) : StateM World Unit := do
  let world ← get
  match world.cache.listener.subscription.bind world.store.receive with
  | none => return
  | some (notification, store) =>
    set { world with store }
    handle setting notification

/-- Follows all commands. -/
def followAll : StateM World Unit := do
  (← get).cache.listener.commands.forM fun _ => followNext

/-- Follows all commands and handles all notifications. -/
def settle (setting : Setting) : StateM World Unit := do
  followAll
  (pending (← get)).forM fun _ => handleNext setting

end Listener

namespace Cache

/-- Registers a table whose document is to be built; gives the channels of the tables registered then. -/
def enroll (setting : Setting) (name : String) (expirySecs : Nat) : StateM World (List String) :=
  modifyGet fun world =>
    let cache := world.cache.register name world.clock expirySecs
    (cache.channels setting, { world with cache })

/-- Unregisters a table, if it is registered; gives the channels of the tables registered then. -/
def withdraw (setting : Setting) (name : String) : StateM World (Option (List String)) :=
  modifyGet fun world =>
    if name ∈ world.cache.entries then
      let cache := world.cache.unregister name
      (some (cache.channels setting), { world with cache })
    else (none, world)

/-- Tells the listener to watch some channels. -/
def announce (channels : List String) : StateM World Unit :=
  World.modifyCache fun cache => cache.post (.resubscribe channels)

/-- Builds the document of a table that is being registered. If that is rejected the table is
unregistered, and the channels of the tables registered then are given. -/
def complete (setting : Setting) (name : String) (expirySecs : Nat) :
    StateM World (Except (Rejection × List String) Unit) := do
  match ← (build setting name).run with
  | .ok document =>
    putBuilt name document expirySecs
    return .ok ()
  | .error rejection =>
    modifyGet fun world =>
      let cache := world.cache.unregister name
      (.error (rejection, cache.channels setting), { world with cache })

/-- Registers a table and builds its document once the listener covers it. -/
def add (setting : Setting) (name : String) (expirySecs : Nat) : WorldM Unit := do
  discard (setting.schema.knownTable name : Except Rejection _)
  announce (← enroll setting name expirySecs)
  Listener.followAll
  match ← complete setting name expirySecs with
  | .ok () => return
  | .error (rejection, channels) =>
    announce channels
    throw rejection

/-- Unregisters a table, and tells whether it was registered. -/
def remove (setting : Setting) (name : String) : StateM World Bool := do
  match ← withdraw setting name with
  | none => return false
  | some channels =>
    announce channels
    return true

/-- Stops the listener. -/
def shutdown : StateM World Unit := do
  World.modifyCache fun cache => cache.post .stop
  Listener.followAll

end Cache

end ConfigVetting
