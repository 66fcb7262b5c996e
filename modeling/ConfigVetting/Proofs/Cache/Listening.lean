import ConfigVetting.Proofs.Cache.Subscribing
import ConfigVetting.Proofs.World.Caching

/-! # The steps of the listener

What the listener does to its subscription and to the registered tables. Building a document and handling
a notification leave the subscriptions, the queue of commands and the set of registered tables as they
are (`ConfigVetting.World.SameWatch`); handling one takes the oldest announcement off the subscription, and
the cache is notified of just that.
-/

namespace ConfigVetting

/-- Whether a world has the same subscriptions, listener and registered tables as an earlier one, none of
which has a document that it had not before, and the cache was notified of some changes in between. -/
structure World.SameWatch (before : World) (news : List Notification) (after : World) : Prop where
  subscribers : after.store.subscribers = before.store.subscribers
  subscriptions : after.store.subscriptions = before.store.subscriptions
  database : after.store.database = before.store.database
  available : after.store.available = before.store.available
  listener : after.cache.listener = before.cache.listener
  registered : ∀ name : String, name ∈ after.cache.entries ↔ name ∈ before.cache.entries
  unbuilt : ∀ name, before.cache.document? name = none → after.cache.document? name = none
  heard : after.heard = before.heard ++ news

namespace World.SameWatch

variable {before middle after : World} {news later : List Notification}

private theorem of_eq (store : ∃ stats, after.store = { before.store with stats })
    (listener : after.cache.listener = before.cache.listener)
    (entries : after.cache.entries = before.cache.entries) (heard : after.heard = before.heard ++ news) :
    before.SameWatch news after := by
  obtain ⟨stats, store⟩ := store
  refine ⟨by rw [store], by rw [store], by rw [store], by rw [store], listener, fun name => ?_,
    fun name none => ?_, heard⟩
  · rw [entries]
  · rw [Cache.document?, entries]
    exact none

private theorem refl (world : World) : world.SameWatch [] world :=
  of_eq ⟨_, rfl⟩ rfl rfl (List.append_nil _).symm

private theorem trans (first : before.SameWatch news middle) (second : middle.SameWatch later after) :
    before.SameWatch (news ++ later) after where
  subscribers := second.subscribers.trans first.subscribers
  subscriptions := second.subscriptions.trans first.subscriptions
  database := second.database.trans first.database
  available := second.available.trans first.available
  listener := second.listener.trans first.listener
  registered name := (second.registered name).trans (first.registered name)
  unbuilt name none := second.unbuilt name (first.unbuilt name none)
  heard := by rw [second.heard, first.heard, List.append_assoc]

/-- A step that keeps the watch keeps the subscription. -/
theorem subscriber?_eq (same : before.SameWatch news after) : after.subscriber? = before.subscriber? :=
  subscriber?_congr (congrArg Listener.subscription same.listener) same.subscribers

theorem isNumbered (same : before.SameWatch news after) (numbered : before.store.IsNumbered) :
    after.store.IsNumbered := by
  refine ⟨fun subscriber member => ?_, ?_⟩
  · rw [same.subscribers] at member
    rw [same.subscriptions]
    exact numbered.fresh subscriber member
  · rw [same.subscribers]
    exact numbered.apart

end World.SameWatch

namespace WorldM

variable {α β : Type}

/-- Whether a call leaves the subscriptions, the listener and the registered tables, and does not notify
the cache. -/
def KeepsWatch (call : WorldM α) : Prop :=
  ∀ world : World, world.SameWatch [] (call.outcome world).2

namespace KeepsWatch

private theorem pure (answer : α) : (pure answer : WorldM α).KeepsWatch :=
  fun world => World.SameWatch.refl world

private theorem except (step : Except Rejection α) : (liftM step : WorldM α).KeepsWatch := by
  intro world
  rw [outcome_except]
  exact World.SameWatch.refl world

private theorem get : (get : WorldM World).KeepsWatch :=
  fun world => World.SameWatch.refl world

private theorem ite {condition : Prop} [Decidable condition] {call other : WorldM α}
    (whenTrue : call.KeepsWatch) (whenFalse : other.KeepsWatch) :
    (if condition then call else other).KeepsWatch := by
  by_cases holds : condition
  · rwa [if_pos holds]
  · rwa [if_neg holds]

private theorem bind {call : WorldM α} {next : α → WorldM β} (first : call.KeepsWatch)
    (rest : ∀ answer, (next answer).KeepsWatch) : (call >>= next).KeepsWatch := by
  intro world
  have firstKept := first world
  rw [outcome_bind]
  rcases split : call.outcome world with ⟨answer, later⟩
  rw [split] at firstKept
  cases answer with
  | error rejection => exact firstKept
  | ok answer => exact firstKept.trans (rest answer later)

private theorem note (kind : EventKind) (fields : List (String × String)) :
    KeepsWatch (liftM (World.note kind fields) : WorldM Unit) :=
  fun _ => World.SameWatch.of_eq ⟨_, rfl⟩ rfl rfl (List.append_nil _).symm

private theorem countUse (count : CacheStats → CacheStats) :
    KeepsWatch (liftM (World.countUse count) : WorldM Unit) :=
  fun _ => World.SameWatch.of_eq ⟨_, rfl⟩ rfl rfl (List.append_nil _).symm

private theorem askStore {request : StoreM α} {answer : ByName Fields → α} (isRead : request.IsRead answer) :
    (World.askStore request).KeepsWatch := by
  intro world
  obtain ⟨kept, _⟩ := isRead world.store
  rw [World.outcome_askStore_snd]
  exact World.SameWatch.of_eq kept rfl rfl (List.append_nil _).symm

end KeepsWatch

end WorldM

namespace Cache

open WorldM

section

variable {cache : Cache} {name other : String} {now : Int} {expirySecs : Nat}

/-- A table is registered beside the others. -/
theorem mem_entries_register :
    other ∈ (cache.register name now expirySecs).entries ↔ name = other ∨ other ∈ cache.entries := by
  unfold register
  rw [Std.ExtTreeMap.mem_insert, Std.LawfulEqCmp.compare_eq_iff_eq]

/-- A table that is registered has no document yet. -/
theorem document?_register : (cache.register name now expirySecs).document? name = none := by
  unfold register document?
  rw [Std.ExtTreeMap.getElem?_insert_self]
  rfl

/-- Only the table that is unregistered is so no longer. -/
theorem mem_entries_unregister :
    other ∈ (cache.unregister name).entries ↔ name ≠ other ∧ other ∈ cache.entries := by
  unfold unregister
  rw [Std.ExtTreeMap.mem_erase, ne_eq, Std.LawfulEqCmp.compare_eq_iff_eq]

/-- Putting a built document in registers its table. -/
theorem mem_entries_putBuilt {document : Document} {world : World} :
    other ∈ (World.run (putBuilt name document expirySecs) world).2.cache.entries ↔
      name = other ∨ other ∈ world.cache.entries := by
  change other ∈ world.cache.entries.insert name _ ↔ _
  rw [Std.ExtTreeMap.mem_insert, Std.LawfulEqCmp.compare_eq_iff_eq]

end

theorem keepsWatch_build (setting : Setting) (name : String) : (build setting name).KeepsWatch :=
  (KeepsWatch.except _).bind fun table =>
    (KeepsWatch.askStore (Store.isRead_fetchTable table setting.batchSize)).bind fun _ =>
      (KeepsWatch.except _).bind fun _ => (KeepsWatch.note _ _).bind fun _ => KeepsWatch.pure _

private theorem keepsWatch_changeDocument (name : String) (change : DocumentM Unit) :
    (changeDocument name change).KeepsWatch := by
  intro world
  rw [outcome_changeDocument]
  cases cached : world.cache.document? name with
  | none => exact World.SameWatch.refl world
  | some document =>
      refine ⟨rfl, rfl, rfl, rfl, rfl, fun other => Std.ExtTreeMap.mem_modify, fun other none => ?_,
        (List.append_nil _).symm⟩
      have apart : name ≠ other := by
        rintro rfl
        rw [cached] at none
        cases none
      exact (document?_putDocument _ _ _ _).trans ((if_neg fun both => apart both.1).trans none)

private theorem keepsWatch_fieldsAfter (key : String) (kind : ChangeKind) :
    (fieldsAfter key kind).KeepsWatch := by
  have asked : (do return (← World.askStore (Store.getRows [key])).head?.join :
      WorldM (Option Fields)).KeepsWatch :=
    (KeepsWatch.askStore (Store.isRead_getRows _)).bind fun _ => KeepsWatch.pure _
  cases kind with
  | fieldsSet => exact asked
  | fieldsDeleted => exact asked
  | rowDeleted => exact KeepsWatch.pure _

/-- Applying a notification notifies the cache of just that, and leaves what it watches. -/
theorem sameWatch_applyNotification (setting : Setting) (notification : Notification) (world : World) :
    world.SameWatch [notification] ((applyNotification setting notification).outcome world).2 := by
  unfold applyNotification
  rw [outcome_bind, outcome_state]
  simp only
  have told : world.SameWatch [notification] (World.run (World.hear notification) world).2 :=
    World.SameWatch.of_eq ⟨_, rfl⟩ rfl rfl rfl
  refine told.trans ((?_ : WorldM.KeepsWatch _) _)
  cases notification.key with
  | none => exact KeepsWatch.pure _
  | some key =>
      cases notification.kind with
      | none => exact KeepsWatch.pure _
      | some kind =>
          simp only
          cases setting.schema.splitStoreKey key with
          | none => exact KeepsWatch.pure _
          | some owner =>
              exact KeepsWatch.get.bind fun _ => KeepsWatch.ite (KeepsWatch.pure _)
                ((keepsWatch_fieldsAfter key kind).bind fun _ =>
                  (keepsWatch_changeDocument _ _).bind fun _ => (KeepsWatch.countUse _).bind fun _ =>
                    (KeepsWatch.note _ _).bind fun _ => KeepsWatch.pure _)

/-- Dropping a document does not touch the subscription. -/
theorem sameWatch_invalidate (name : String) (world : World) :
    world.SameWatch [] (World.run (invalidate name) world).2 := by
  unfold invalidate
  rw [World.run_bind]
  change world.SameWatch [] (World.run (if name ∈ world.cache.entries then _ else _) world).2
  by_cases registered : name ∈ world.cache.entries
  · rw [if_pos registered]
    refine ⟨rfl, rfl, rfl, rfl, rfl, fun other => Std.ExtTreeMap.mem_modify, fun other none => ?_,
      (List.append_nil _).symm⟩
    refine (document?_putDocument world.cache name other .none).trans ?_
    by_cases own : name = other ∧ other ∈ world.cache.entries
    · rw [if_pos own]
    · rwa [if_neg own]
  · rw [if_neg registered]
    exact World.SameWatch.refl world

end Cache

namespace Listener

private theorem sameWatch_handle (setting : Setting) (notification : Notification) (world : World) :
    world.SameWatch [notification] (World.run (handle setting notification) world).2 := by
  have applied := Cache.sameWatch_applyNotification setting notification world
  unfold handle
  rw [World.run_bind, WorldM.run_run]
  generalize (Cache.applyNotification setting notification).outcome world = outcome at applied ⊢
  obtain ⟨answer, later⟩ := outcome
  cases answer with
  | ok answer => exact applied
  | error rejection =>
      have noted := applied.trans (World.SameWatch.of_eq ⟨_, rfl⟩ rfl rfl (List.append_nil _).symm :
        later.SameWatch [] (World.run (World.note .notificationFailed
          [("channel", notification.channel), ("code", rejection.code.text),
            ("error", rejection.message)]) later).2)
      simp only
      rw [World.run_bind]
      cases notification.key.bind setting.schema.splitStoreKey with
      | none => exact noted
      | some owner => exact noted.trans (Cache.sameWatch_invalidate owner.1.name _)

end Listener

/-- The world with the oldest announcement taken off the subscription of the listener. -/
def World.received (world : World) : World :=
  match world.cache.listener.subscription with
  | none => world
  | some id => { world with store.subscribers := world.store.subscribers.map fun subscriber =>
      if subscriber.id = id then { subscriber with pending := subscriber.pending.tail }
      else subscriber }

/-- Taking a notification changes the subscribers alone. -/
theorem World.received_eq (world : World) :
    world.received = { world with store.subscribers := world.received.store.subscribers } := by
  unfold received
  split <;> rfl

theorem World.received_cache (world : World) : world.received.cache = world.cache := by
  rw [received_eq]

/-- The notification that is taken is the oldest one. -/
theorem World.subscriber?_received (world : World) :
    world.received.subscriber? =
      world.subscriber?.map fun subscriber =>
        { subscriber with pending := subscriber.pending.tail } := by
  rw [received_eq]
  unfold subscriber? received
  cases world.cache.listener.subscription with
  | none => rfl
  | some id =>
      simp only [Option.bind_some, List.find?_map]
      have own : ((fun subscriber : Subscriber => decide (subscriber.id = id)) ∘ fun subscriber =>
          if subscriber.id = id then { subscriber with pending := subscriber.pending.tail }
          else subscriber) = fun subscriber => decide (subscriber.id = id) := by
        funext subscriber
        by_cases own : subscriber.id = id <;> simp [own]
      rw [own]
      cases found : world.store.subscribers.find? fun subscriber => subscriber.id = id with
      | none => rfl
      | some subscriber =>
          have named : subscriber.id = id := by simpa using List.find?_some found
          simp [named]

theorem World.isNumbered_received {world : World} (numbered : world.store.IsNumbered) :
    world.received.store.IsNumbered := by
  unfold received
  split
  next => exact numbered
  next => exact numbered.map (fun subscriber => by split <;> rfl) rfl rfl

namespace Listener

/-- Handling the oldest notification, if there is one, leaves all but the subscription it is taken off, and
notifies the cache of just that. -/
theorem sameWatch_handleNext (setting : Setting) (world : World) :
    world.received.SameWatch ((pending world).take 1) (World.run (handleNext setting) world).2 := by
  unfold handleNext World.received pending Store.drain
  rw [World.run_bind, show World.run get world = (world, world) from rfl]
  cases listening : world.cache.listener.subscription with
  | none => exact World.SameWatch.refl world
  | some id =>
      simp only [Option.bind_some, Store.receive]
      cases waiting : (world.store.subscribers.filter fun subscriber => subscriber.id = id).flatMap
          Subscriber.pending with
      | nil =>
          have untouched : (world.store.subscribers.map fun subscriber =>
              if subscriber.id = id then { subscriber with pending := subscriber.pending.tail }
              else subscriber) = world.store.subscribers := by
            refine (List.map_congr_left fun subscriber member => ?_).trans (List.map_id _)
            by_cases own : subscriber.id = id
            · have empty := List.flatMap_eq_nil_iff.mp waiting subscriber
                (List.mem_filter.mpr ⟨member, by simpa using own⟩)
              obtain ⟨number, patterns, pending⟩ := subscriber
              cases (show pending = [] from empty)
              simp
            · rw [if_neg own]
              rfl
          rw [untouched]
          exact World.SameWatch.refl world
      | cons notification others => exact sameWatch_handle setting notification _

/-- Taking the command that waits the longest. -/
theorem run_takeCommand (world : World) :
    World.run takeCommand world =
      match world.cache.listener.commands with
      | [] => (none, world)
      | command :: later => (some command, { world with cache.listener.commands := later }) := rfl

private theorem run_unsubscribe_eq (world : World) :
    (World.run unsubscribe world).2 = { world with
      store := match world.cache.listener.subscription with
        | some id => world.store.cancel id
        | none => world.store
      cache.listener.subscription := none } := rfl

/-- Giving up the subscription leaves none. -/
theorem run_unsubscribe (world : World) :
    ∃ store : Store, (world.store.IsNumbered → store.IsNumbered) ∧
      store.available = world.store.available ∧ store.database = world.store.database ∧
      (World.run unsubscribe world).2 =
        { world with store, cache.listener.subscription := none } := by
  rw [run_unsubscribe_eq]
  cases world.cache.listener.subscription with
  | none => exact ⟨world.store, id, rfl, rfl, rfl⟩
  | some id => exact ⟨world.store.cancel id, fun numbered => numbered.cancel id, rfl, rfl, rfl⟩

/-- Making a subscription. -/
theorem run_subscribe (channels : List String) (world : World) :
    (World.run (subscribe channels) world).2 = world ∧
        (channels = [] ∨ world.store.available = false) ∨
      channels ≠ [] ∧ ∃ journal, (World.run (subscribe channels) world).2 = { world with
        store := { world.store with
          subscribers := world.store.subscribers ++
            [{ id := world.store.subscriptions, patterns := channels }]
          subscriptions := world.store.subscriptions + 1 }
        journal
        cache.listener.subscription := some world.store.subscriptions } := by
  obtain ⟨⟨database, rows, available, stats, subscribers, subscriptions⟩, cache, clock, journal,
    consultations, heard⟩ := world
  cases channels with
  | nil => exact Or.inl ⟨rfl, Or.inl rfl⟩
  | cons channel channels =>
      cases available with
      | false => exact Or.inl ⟨rfl, Or.inr rfl⟩
      | true => exact Or.inr ⟨List.cons_ne_nil _ _, _, rfl⟩

end Listener

end ConfigVetting
