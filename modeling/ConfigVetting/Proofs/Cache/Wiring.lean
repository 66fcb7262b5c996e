import ConfigVetting.Proofs.Cache.Listening
import ConfigVetting.Proofs.Schema.Tables

/-! # What callers and the listener tell each other

The parts of calls and the steps of the listener, each with what it does to the subscription and to the
queue of commands (`ConfigVetting.SharedCache.Turn`). In every run the subscriptions in the store are told
apart, and the listener has none in the middle of a command or when it has stopped
(`ConfigVetting.SharedCache.IsWired`).
-/

namespace ConfigVetting

/-- Two maps with the same names list them in the same order. -/
theorem ByName.keys_eq {β : Type} {first second : ByName β}
    (same : ∀ name : String, name ∈ first ↔ name ∈ second) : first.keys = second.keys := by
  have ordered : ∀ values : ByName β, values.keys.Pairwise fun first second =>
      compare first second = .lt := fun values => values.ordered_keys
  refine List.Perm.eq_of_pairwise (fun a b _ _ less more => ?_) (ordered first) (ordered second) ?_
  · exact absurd more (Std.OrientedCmp.not_lt_of_lt less)
  · refine (List.perm_ext_iff_of_nodup Std.ExtTreeMap.nodup_keys Std.ExtTreeMap.nodup_keys).mpr
      fun name => ?_
    rw [Std.ExtTreeMap.mem_keys, Std.ExtTreeMap.mem_keys]
    exact same name

/-- The channels of the registered tables depend on nothing but which tables are registered. -/
theorem Cache.channels_congr {setting : Setting} {first second : Cache}
    (same : ∀ name : String, name ∈ first.entries ↔ name ∈ second.entries) :
    first.channels setting = second.channels setting := by
  unfold channels tables
  rw [ByName.keys_eq same]

namespace SharedCache

variable {setting : Setting} {shared : SharedCache}

/-- The patterns of the subscription of the listener. -/
def live (shared : SharedCache) : Option (List String) :=
  shared.world.subscriber?.map Subscriber.patterns

/-- What the listener has still to follow, the oldest command first. -/
def queue (shared : SharedCache) : List ListenerCommand :=
  shared.renewing.toList.map .resubscribe ++ shared.world.cache.listener.commands

theorem length_queue (shared : SharedCache) : shared.queue.length = shared.outstanding := by
  simp [queue, outstanding]

/-- A call that finishes puts the built document in, or unregisters its table and has still to tell so. -/
theorem finishAdd_cases (setting : Setting) (shared : SharedCache) (name : String)
    (expirySecs ticket : Nat) :
    ∃ middle, shared.world.SameWatch [] middle ∧
      ((∃ document, shared.finishAdd setting name expirySecs ticket = { shared with
          world := (World.run (Cache.putBuilt name document expirySecs) middle).2
          calls := shared.calls.erase (.awaiting name expirySecs ticket) }) ∨
        shared.finishAdd setting name expirySecs ticket = { shared with
          world := { middle with cache := middle.cache.unregister name }
          calls := shared.calls.erase (.awaiting name expirySecs ticket) ++
            [.retracting ((middle.cache.unregister name).channels setting)] }) := by
  have built := Cache.keepsWatch_build setting name shared.world
  unfold finishAdd Cache.complete
  rw [World.run_bind, WorldM.run_run]
  generalize (Cache.build setting name).outcome shared.world = outcome at built ⊢
  obtain ⟨answer, middle⟩ := outcome
  refine ⟨middle, built, ?_⟩
  cases answer with
  | ok document => exact Or.inl ⟨document, rfl⟩
  | error rejection => exact Or.inr rfl

/-- A call that begins to unregister takes the table out, or is over if it is not registered. -/
theorem beginRemove_cases (setting : Setting) (shared : SharedCache) (name : String) :
    shared.beginRemove setting name = shared ∨
      shared.beginRemove setting name = { shared with
        world := { shared.world with cache := shared.world.cache.unregister name }
        calls := shared.calls ++
          [.retracting ((shared.world.cache.unregister name).channels setting)] } := by
  have ran : World.run (Cache.withdraw setting name) shared.world =
      if name ∈ shared.world.cache.entries then
        (some ((shared.world.cache.unregister name).channels setting),
          { shared.world with cache := shared.world.cache.unregister name })
      else (none, shared.world) := rfl
  unfold beginRemove
  rw [ran]
  by_cases registered : name ∈ shared.world.cache.entries
  · rw [if_pos registered]
    exact Or.inr rfl
  · rw [if_neg registered]
    exact Or.inl rfl

/-- The listener that takes a command gives up its subscription, and is then in the middle of it or stopped. -/
theorem takeCommand_cases (shared : SharedCache) :
    shared.world.cache.listener.commands = [] ∧ shared.takeCommand = shared ∨
      ∃ later store journal, (shared.world.store.IsNumbered → store.IsNumbered) ∧
        store.available = shared.world.store.available ∧
        store.database = shared.world.store.database ∧
        ((∃ channels, shared.world.cache.listener.commands = .resubscribe channels :: later ∧
            shared.takeCommand = { shared.giveUp { shared.world with
              store
              cache.listener := { shared.world.cache.listener with
                subscription := none
                commands := later } } with renewing := some channels }) ∨
          shared.world.cache.listener.commands = .stop :: later ∧
            shared.takeCommand = shared.giveUp { shared.world with
              store, journal
              cache.listener := { running := false } }) := by
  unfold takeCommand
  rw [Listener.run_takeCommand]
  cases waiting : shared.world.cache.listener.commands with
  | nil => exact Or.inl ⟨rfl, rfl⟩
  | cons command later =>
      right
      cases command with
      | resubscribe channels =>
          obtain ⟨store, numbered, available, database, given⟩ :=
            Listener.run_unsubscribe { shared.world with cache.listener.commands := later }
          refine ⟨later, store, [], numbered, available, database, Or.inl ⟨channels, rfl, ?_⟩⟩
          simp only [given]
      | stop =>
          obtain ⟨store, numbered, available, database, given⟩ :=
            Listener.run_unsubscribe { shared.world with
              cache.listener.commands := later
              journal := shared.world.journal ++ [⟨.listenerStopped, []⟩] }
          refine ⟨later, store, shared.world.journal ++ [⟨.listenerStopped, []⟩], numbered, available,
            database, Or.inr ⟨rfl, ?_⟩⟩
          refine congrArg shared.giveUp ((congrArg (fun world : World => { world with
            cache.listener := { world.cache.listener with running := false, commands := [] } })
              given).trans ?_)
          rfl

/-- What a step does to the subscription of the listener and to its queue. -/
inductive Turn (shared later : SharedCache) : Prop where
  | kept (live : later.live = shared.live) (queue : later.queue = shared.queue)
      (renewing : later.renewing = shared.renewing) (followed : later.followed = shared.followed)
      (running : later.world.cache.listener.running = shared.world.cache.listener.running)
      (announced : later.announced = shared.announced)
  /-- A command is put into the queue, unless the listener has stopped. -/
  | told (command : ListenerCommand) (live : later.live = shared.live)
      (queue : later.queue =
        if shared.world.cache.listener.running then shared.queue ++ [command] else shared.queue)
      (renewing : later.renewing = shared.renewing) (followed : later.followed = shared.followed)
      (running : later.world.cache.listener.running = shared.world.cache.listener.running)
      (said : command = .stop ∧ later.announced = shared.announced ∨
        ∃ channels ∈ shared.calls.filterMap CacheCall.untold?,
          command = .resubscribe channels ∧ later.announced = channels)
  /-- The listener begins to follow a command: its subscription is gone. -/
  | taken (live : later.live = none) (queue : later.queue = shared.queue)
      (followed : later.followed = shared.followed)
      (running : later.world.cache.listener.running = shared.world.cache.listener.running)
      (announced : later.announced = shared.announced)
      (waiting : ∃ channels rest, shared.queue = .resubscribe channels :: rest)
  | stopped (live : later.live = none) (queue : later.queue = [])
      (running : later.world.cache.listener.running = false)
  /-- The listener has followed a command: it has a subscription if there are channels and the store is
  available. -/
  | renewed (channels : List String) (queue : shared.queue = .resubscribe channels :: later.queue)
      (live : later.live = none ∧ (channels = [] ∨ shared.world.store.available = false) ∨
        later.live = some channels ∧ channels ≠ [])
      (renewing : later.renewing = none) (followed : later.followed = shared.followed + 1)
      (running : later.world.cache.listener.running = shared.world.cache.listener.running)
      (announced : later.announced = shared.announced)

/-- Whether the subscriptions in the store are numbered, and the listener has no subscription in the
middle of a command or when it has stopped, and no command then. -/
structure IsWired (shared : SharedCache) : Prop where
  numbered : shared.world.store.IsNumbered
  amid : shared.renewing ≠ none → shared.live = none
  stopped : shared.world.cache.listener.running = false → shared.live = none ∧ shared.queue = []

private theorem turn_of_eq {later : SharedCache}
    (live : later.live = shared.live)
    (listener : later.world.cache.listener = shared.world.cache.listener)
    (renewing : later.renewing = shared.renewing) (followed : later.followed = shared.followed)
    (announced : later.announced = shared.announced) : Turn shared later := by
  refine .kept live ?_ renewing followed (by rw [listener]) announced
  unfold queue
  rw [listener, renewing]

/-- The subscription hears of every write. -/
theorem subscriber?_write (write : StoreWrite) :
    (shared.write setting write).world.subscriber? = shared.world.subscriber?.map
      (.hear shared.world.store.database write.key (write.kinds shared.world.store)) :=
  World.subscriber?_map (Subscriber.id_hear _ _ _) rfl
    (congrArg Store.subscribers (write.apply_eq shared.world.store))

private theorem turn_write (write : StoreWrite) : Turn shared (shared.write setting write) := by
  refine turn_of_eq ?_ rfl rfl rfl rfl
  unfold live
  rw [subscriber?_write, Option.map_map]
  refine congrArg (Option.map · shared.world.subscriber?) (funext fun subscriber => ?_)
  unfold Function.comp Subscriber.hear
  split <;> rfl

/-- A command that is posted goes to the end of the queue, unless the listener has stopped. -/
theorem post_eq (cache : Cache) (command : ListenerCommand) :
    cache.post command = { cache with listener.commands :=
      if cache.listener.running then cache.listener.commands ++ [command]
      else cache.listener.commands } := by
  unfold Cache.post
  split <;> rfl

theorem entries_tell (shared : SharedCache) (channels : List String) :
    (shared.tell channels).world.cache.entries = shared.world.cache.entries := by
  change (shared.world.cache.post (.resubscribe channels)).entries = _
  rw [post_eq]

/-- A command waits behind the others, unless the listener was stopped. -/
theorem queue_post (shared : SharedCache) (command : ListenerCommand) :
    shared.renewing.toList.map .resubscribe ++ (shared.world.cache.post command).listener.commands =
      if shared.world.cache.listener.running then shared.queue ++ [command] else shared.queue := by
  rw [post_eq]
  unfold queue
  cases shared.world.cache.listener.running with
  | true => exact (List.append_assoc _ _ _).symm
  | false => rfl

private theorem turn_post (shared : SharedCache) (command : ListenerCommand) (announced : List String)
    (calls : List CacheCall)
    (said : command = .stop ∧ announced = shared.announced ∨
      ∃ channels ∈ shared.calls.filterMap CacheCall.untold?,
        command = .resubscribe channels ∧ announced = channels) :
    Turn shared { shared with
      world := { shared.world with cache := shared.world.cache.post command }
      announced, calls } := by
  have queue := queue_post shared command
  rw [post_eq] at queue ⊢
  exact .told command rfl queue rfl rfl rfl said

/-- Taking a command begins to follow it, or stops the listener. -/
theorem turn_takeCommand (idle : shared.renewing = none) : Turn shared shared.takeCommand := by
  rcases shared.takeCommand_cases with ⟨_, same⟩ | ⟨later, store, journal, _, _, _,
    ⟨channels, waiting, same⟩ | ⟨waiting, same⟩⟩
  · rw [same]
    exact .kept rfl rfl rfl rfl rfl rfl
  · have queue : shared.queue = .resubscribe channels :: later := by
      unfold queue
      rw [idle, waiting]
      rfl
    rw [same]
    exact .taken rfl queue.symm rfl rfl rfl ⟨channels, later, queue⟩
  · rw [same]
    refine .stopped rfl ?_ rfl
    unfold queue
    rw [show (shared.giveUp _).renewing = none from idle]
    rfl

/-- Making the subscription of a command ends it. -/
theorem turn_renew (wired : shared.IsWired) {channels : List String}
    (amid : shared.renewing = some channels) : Turn shared (shared.renew channels) := by
  have gone := wired.amid (by simp [amid])
  have front : shared.queue = .resubscribe channels :: shared.world.cache.listener.commands := by
    unfold queue
    rw [amid]
    rfl
  unfold SharedCache.renew
  rcases Listener.run_subscribe channels shared.world with ⟨same, failed⟩ | ⟨some, journal, same⟩
  · rw [same]
    exact .renewed channels front (Or.inl ⟨gone, failed⟩) rfl rfl rfl rfl
  · rw [same]
    refine .renewed channels front (Or.inr ⟨?_, some⟩) rfl rfl rfl rfl
    exact congrArg (Option.map Subscriber.patterns) (wired.numbered.find?_push channels)

/-- Every step is a turn of the listener. -/
theorem Step.turn {later : SharedCache} (wired : shared.IsWired) (next : Step setting shared later) :
    Turn shared later := by
  cases next with
  | write write => exact turn_write write
  | setAvailable available => exact .kept rfl rfl rfl rfl rfl rfl
  | beginAdd name expirySecs known => exact .kept rfl rfl rfl rfl rfl rfl
  | beginRemove name =>
      rcases beginRemove_cases setting shared name with same | same
      · rw [same]
        exact .kept rfl rfl rfl rfl rfl rfl
      · rw [same]
        exact .kept rfl rfl rfl rfl rfl rfl
  | tellAdd name expirySecs channels begun =>
      exact turn_post shared (.resubscribe channels) channels _
        (Or.inr ⟨channels, List.mem_filterMap.mpr ⟨_, begun, rfl⟩, rfl, rfl⟩)
  | tellRemove channels begun =>
      exact turn_post shared (.resubscribe channels) channels _
        (Or.inr ⟨channels, List.mem_filterMap.mpr ⟨_, begun, rfl⟩, rfl, rfl⟩)
  | finishAdd name expirySecs ticket begun followed =>
      obtain ⟨middle, same, ⟨document, finished⟩ | finished⟩ :=
        finishAdd_cases setting shared name expirySecs ticket
      · rw [finished]
        exact turn_of_eq (congrArg (Option.map _) same.subscriber?_eq) same.listener rfl rfl rfl
      · rw [finished]
        exact turn_of_eq (congrArg (Option.map _) same.subscriber?_eq) same.listener rfl rfl rfl
  | invalidate name =>
      have same := Cache.sameWatch_invalidate name shared.world
      exact turn_of_eq (congrArg (Option.map _) same.subscriber?_eq) same.listener rfl rfl rfl
  | stop => exact turn_post shared .stop shared.announced shared.calls (Or.inl ⟨rfl, rfl⟩)
  | takeCommand idle => exact turn_takeCommand idle
  | renew channels amid => exact turn_renew wired amid
  | handle idle =>
      have same := Listener.sameWatch_handleNext setting shared.world
      refine turn_of_eq ?_ ?_ rfl rfl rfl
      · refine (congrArg (Option.map Subscriber.patterns)
          (same.subscriber?_eq.trans shared.world.subscriber?_received)).trans ?_
        rw [Option.map_map]
        rfl
      · exact same.listener.trans (by rw [World.received_cache])

/-- Every step keeps the numbers of the subscriptions apart. -/
theorem Step.isNumbered {later : SharedCache} (next : Step setting shared later)
    (numbered : shared.world.store.IsNumbered) : later.world.store.IsNumbered := by
  cases next with
  | write write =>
      have written := write.apply_eq shared.world.store
      exact numbered.map (Subscriber.id_hear _ _ _) (congrArg Store.subscribers written)
        (congrArg Store.subscriptions written :)
  | setAvailable available => exact ⟨numbered.fresh, numbered.apart⟩
  | beginAdd name expirySecs known => exact numbered
  | beginRemove name =>
      rcases beginRemove_cases setting shared name with same | same
      · rwa [same]
      · rwa [same]
  | tellAdd name expirySecs channels begun => exact numbered
  | tellRemove channels begun => exact numbered
  | finishAdd name expirySecs ticket begun followed =>
      obtain ⟨middle, same, ⟨document, finished⟩ | finished⟩ :=
        finishAdd_cases setting shared name expirySecs ticket
      · rw [finished]
        exact same.isNumbered numbered
      · rw [finished]
        exact same.isNumbered numbered
  | invalidate name => exact (Cache.sameWatch_invalidate name shared.world).isNumbered numbered
  | stop => exact numbered
  | takeCommand idle =>
      rcases shared.takeCommand_cases with ⟨_, same⟩ | ⟨_, store, _, kept, _, _,
        ⟨_, _, same⟩ | ⟨_, same⟩⟩
      · rwa [same]
      · rw [same]
        exact kept numbered
      · rw [same]
        exact kept numbered
  | renew channels amid =>
      unfold SharedCache.renew
      rcases Listener.run_subscribe channels shared.world with ⟨same, _⟩ | ⟨_, _, same⟩
      · rwa [same]
      · rw [same]
        exact numbered.push channels
  | handle idle =>
      exact (Listener.sameWatch_handleNext setting shared.world).isNumbered
        (World.isNumbered_received numbered)

private theorem IsWired.step {later : SharedCache} (wired : shared.IsWired)
    (next : Step setting shared later) : later.IsWired := by
  refine ⟨next.isNumbered wired.numbered, fun amid => ?_, fun halted => ?_⟩
  · cases next.turn wired with
    | kept live _ renewing => exact live.trans (wired.amid (renewing ▸ amid))
    | told _ live _ renewing => exact live.trans (wired.amid (renewing ▸ amid))
    | taken live => exact live
    | stopped live => exact live
    | renewed _ _ _ renewing => exact absurd renewing amid
  · cases next.turn wired with
    | kept live queue _ _ running =>
        obtain ⟨gone, empty⟩ := wired.stopped (running ▸ halted)
        exact ⟨live.trans gone, queue.trans empty⟩
    | told _ live queue _ _ running =>
        rw [running] at halted
        obtain ⟨gone, empty⟩ := wired.stopped halted
        rw [halted, if_neg Bool.false_ne_true] at queue
        exact ⟨live.trans gone, queue.trans empty⟩
    | taken live queue _ running =>
        exact ⟨live, queue.trans (wired.stopped (running ▸ halted)).2⟩
    | stopped live queue => exact ⟨live, queue⟩
    | renewed _ queue _ _ _ running =>
        rw [(wired.stopped (running ▸ halted)).2] at queue
        cases queue

private theorem IsWired.forgetDropped (wired : shared.IsWired) : shared.forgetDropped.IsWired :=
  ⟨wired.numbered, wired.amid, wired.stopped⟩

private theorem isWired_start {world : World} (numbered : world.store.IsNumbered) : (start world).IsWired :=
  ⟨numbered, fun amid => absurd rfl amid, fun stopped => Bool.noConfusion stopped⟩

namespace Reaches

variable {Rule : SharedCache → Prop} {world : World} {last : SharedCache}

/-- A run ends in a state that its rule allows, but for what was due to dropped documents. -/
theorem exists_rule (run : Reaches setting Rule world last) :
    ∃ shared, Rule shared ∧ shared.forgetDropped = last := by
  cases run with
  | start rule => exact ⟨_, rule, rfl⟩
  | step _ _ rule => exact ⟨_, rule, rfl⟩

/-- Whatever runs, the subscriptions stay numbered, and the listener has none in the middle of a command or
when it has stopped. -/
theorem isWired (run : Reaches setting Rule world last) (numbered : world.store.IsNumbered) :
    last.IsWired := by
  induction run with
  | start => exact isWired_start numbered
  | step _ next _ ih => exact (ih.step next).forgetDropped

end Reaches

/-- A setting with two tables. -/
def twoTables : Setting where
  schema := .ofModules [{ name := "m", tables := [
    { name := "PORT", keyPattern := "PORT|\x7bname\x7d", leaves := [{ name := "mtu" }] },
    { name := "VLAN", keyPattern := "VLAN|\x7bname\x7d" }] }]
  database := 0
  batchSize := 100

/-- A world with nothing in it. -/
def emptyWorld : World where
  store := { database := 0 }

theorem isNumbered_emptyWorld : emptyWorld.store.IsNumbered :=
  ⟨fun _ member => absurd member List.not_mem_nil, List.nodup_nil⟩

end SharedCache

end ConfigVetting
