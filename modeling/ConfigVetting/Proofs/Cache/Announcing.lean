import ConfigVetting.Proofs.Cache.Wiring

/-! # The channels that the listener was told last

While subscriptions can be made, what the listener has still to follow leads to the channels that it was
told last (`ConfigVetting.SharedCache.IsFollowing`), whatever happens in between. Calls that run at the
same time may tell it channels in another order than they took them, or register a table again that is
gone; orderly calls do neither, so what they told it last are the channels of the registered tables
(`ConfigVetting.SharedCache.IsCurrent`).
-/

namespace ConfigVetting

/-- The patterns of a subscription to some channels; there is none if there are no channels. -/
def Channel.watched (channels : List String) : Option (List String) :=
  if channels = [] then none else some channels

private theorem Channel.watched_inj {first second : List String} :
    watched first = watched second ↔ first = second := by
  unfold watched
  split <;> split <;> simp_all

/-- The patterns of the subscription after a command, as long as the listener runs. -/
def ListenerCommand.patternsAfter (live : Option (List String)) :
    ListenerCommand → Option (List String)
  | resubscribe channels => Channel.watched channels
  | stop => live

namespace SharedCache

variable {setting : Setting} {shared later : SharedCache}

/-- Whether a listener that runs ends up with the channels that it was told last. -/
def IsFollowing (shared : SharedCache) : Prop :=
  shared.world.cache.listener.running = true →
    shared.queue.foldl ListenerCommand.patternsAfter shared.live = Channel.watched shared.announced

private theorem IsFollowing.turn (following : shared.IsFollowing) (turn : Turn shared later)
    (available : shared.world.store.available = true) : later.IsFollowing := by
  unfold IsFollowing at following ⊢
  intro runs
  cases turn with
  | kept live queue _ _ running announced =>
      rw [queue, live, announced]
      exact following (running ▸ runs)
  | told command live queue _ _ running said =>
      rw [running] at runs
      rw [queue, if_pos runs, List.foldl_append, live, following runs]
      rcases said with ⟨rfl, announced⟩ | ⟨channels, _, rfl, announced⟩
      · rw [announced]
        rfl
      · rw [announced]
        rfl
  | taken live queue _ running announced waiting =>
      -- The command in front makes the subscription anew, so it does not matter that it is gone.
      obtain ⟨channels, rest, front⟩ := waiting
      have following := following (running ▸ runs)
      rw [front] at following
      rw [queue, front, announced]
      exact following
  | stopped live queue running =>
      rw [running] at runs
      cases runs
  | renewed channels queue live _ _ running announced =>
      have following := following (running ▸ runs)
      rw [queue] at following
      have made : later.live = Channel.watched channels := by
        unfold Channel.watched
        rcases live with ⟨none, rfl | failed⟩ | ⟨some, filled⟩
        · rw [none, if_pos rfl]
        · rw [available] at failed
          cases failed
        · rw [some, if_neg filled]
      rw [made, announced]
      exact following

/-- The channels that calls have still to tell the listener. -/
def untold (shared : SharedCache) : List (List String) :=
  shared.calls.filterMap CacheCall.untold?

/-- Whether the channels that are still to be told, or else those told last, are those of the registered
tables. -/
def IsCurrent (setting : Setting) (shared : SharedCache) : Prop :=
  shared.untold.headD shared.announced = shared.world.cache.channels setting

namespace IsCurrent

private theorem of_same (current : shared.IsCurrent setting)
    (registered : ∀ name : String,
      name ∈ later.world.cache.entries ↔ name ∈ shared.world.cache.entries)
    (untold : later.untold = shared.untold) (announced : later.announced = shared.announced) :
    later.IsCurrent setting := by
  unfold IsCurrent
  rw [untold, announced, Cache.channels_congr registered]
  exact current

/-- A call that changes the registered tables takes their channels. -/
theorem of_begun {calls : List CacheCall} {call : CacheCall} (begun : later.calls = calls ++ [call])
    (takes : call.untold? = some (later.world.cache.channels setting))
    (orderly : later.untold.length ≤ 1) : later.IsCurrent setting := by
  have untold : later.untold =
      calls.filterMap CacheCall.untold? ++ [later.world.cache.channels setting] := by
    unfold SharedCache.untold
    rw [begun, List.filterMap_append, List.filterMap_cons_some takes]
    rfl
  have idle : calls.filterMap CacheCall.untold? = [] := by
    rw [untold, List.length_append, List.length_singleton] at orderly
    exact List.eq_nil_of_length_eq_zero (by omega)
  unfold IsCurrent
  rw [untold, idle]
  rfl

/-- The only call that has channels still to tell does so. -/
theorem of_told (current : shared.IsCurrent setting) (orderly : shared.untold.length ≤ 1)
    {call : CacheCall} {channels : List String} (begun : call ∈ shared.calls)
    (tells : call.untold? = some channels) {next : List CacheCall}
    (calls : later.calls = shared.calls.erase call ++ next)
    (silent : next.filterMap CacheCall.untold? = []) (announced : later.announced = channels)
    (registered : later.world.cache.entries = shared.world.cache.entries) :
    later.IsCurrent setting := by
  obtain ⟨before, after, _, all, erased⟩ := List.exists_erase_eq begun
  have untold : shared.untold = before.filterMap CacheCall.untold? ++
      channels :: after.filterMap CacheCall.untold? := by
    unfold SharedCache.untold
    rw [all, List.filterMap_append, List.filterMap_cons_some tells]
  have lone : before.filterMap CacheCall.untold? = [] ∧ after.filterMap CacheCall.untold? = [] := by
    rw [untold, List.length_append, List.length_cons] at orderly
    exact ⟨List.eq_nil_of_length_eq_zero (by omega), List.eq_nil_of_length_eq_zero (by omega)⟩
  have told : later.untold = [] := by
    unfold SharedCache.untold
    rw [calls, erased, List.filterMap_append, List.filterMap_append, lone.1, lone.2, silent]
    rfl
  have same : later.world.cache.channels setting = shared.world.cache.channels setting :=
    Cache.channels_congr fun name => by rw [registered]
  unfold IsCurrent at current ⊢
  rw [untold, lone.1] at current
  rw [told, announced, same]
  exact current

end IsCurrent

private theorem untold_erase {call : CacheCall} (begun : call ∈ shared.calls) (silent : call.untold? = none)
    : (shared.calls.erase call).filterMap CacheCall.untold? = shared.untold := by
  obtain ⟨before, after, _, all, erased⟩ := List.exists_erase_eq begun
  unfold untold
  rw [erased, all, List.filterMap_append, List.filterMap_append, List.filterMap_cons_none silent]

private theorem IsCurrent.step (current : shared.IsCurrent setting) (orderly : shared.IsOrderly)
    (next : Step setting shared later) (stillOrderly : later.IsOrderly) :
    later.IsCurrent setting := by
  cases next with
  | write write => exact current.of_same (fun _ => Iff.rfl) rfl rfl
  | setAvailable available => exact current.of_same (fun _ => Iff.rfl) rfl rfl
  | beginAdd name expirySecs known => exact of_begun rfl rfl stillOrderly.1
  | beginRemove name =>
      rcases beginRemove_cases setting shared name with same | same
      · rwa [same]
      · rw [same] at stillOrderly ⊢
        exact of_begun rfl rfl stillOrderly.1
  | tellAdd name expirySecs channels begun =>
      exact current.of_told orderly.1 begun rfl rfl rfl rfl (shared.entries_tell channels)
  | tellRemove channels begun =>
      exact current.of_told orderly.1 begun rfl (List.append_nil _).symm rfl rfl
        (shared.entries_tell channels)
  | finishAdd name expirySecs ticket begun followed =>
      have still := untold_erase begun rfl
      have held := orderly.2 name (List.mem_filterMap.mpr ⟨_, begun, rfl⟩)
      obtain ⟨middle, same, ⟨document, finished⟩ | finished⟩ :=
        finishAdd_cases setting shared name expirySecs ticket
      · rw [finished]
        refine current.of_same (fun other => ?_) still rfl
        refine Cache.mem_entries_putBuilt.trans ((or_congr_right (same.registered other)).trans ?_)
        exact or_iff_right_of_imp fun own => own ▸ held
      · rw [finished] at stillOrderly ⊢
        exact of_begun rfl rfl stillOrderly.1
  | invalidate name =>
      exact current.of_same (Cache.sameWatch_invalidate name shared.world).registered rfl rfl
  | stop =>
      rw [post_eq]
      exact current.of_same (fun _ => Iff.rfl) rfl rfl
  | takeCommand idle =>
      rcases shared.takeCommand_cases with ⟨_, same⟩ | ⟨_, _, _, _, _, _, ⟨_, _, same⟩ | ⟨_, same⟩⟩
      all_goals
        rw [same]
        exact current.of_same (fun _ => Iff.rfl) rfl rfl
  | renew channels amid =>
      unfold SharedCache.renew
      rcases Listener.run_subscribe channels shared.world with ⟨same, _⟩ | ⟨_, _, same⟩
      all_goals
        rw [same]
        exact current.of_same (fun _ => Iff.rfl) rfl rfl
  | handle idle =>
      refine current.of_same (fun name => ?_) rfl rfl
      rw [← World.received_cache shared.world]
      exact (Listener.sameWatch_handleNext setting shared.world).registered name

/-- The channels that the listener heeds: those that it was told last, as long as it runs. -/
def heeded (shared : SharedCache) : List String :=
  if shared.world.cache.listener.running then shared.announced else []

private theorem IsFollowing.live_eq (following : shared.IsFollowing) (wired : shared.IsWired)
    (followed : shared.queue = []) : shared.live = Channel.watched shared.heeded := by
  unfold heeded
  cases running : shared.world.cache.listener.running with
  | true =>
      have reached := following running
      rwa [followed] at reached
  | false => exact (wired.stopped running).1

namespace Reaches

variable {Rule : SharedCache → Prop} {world : World} {last : SharedCache}

private theorem isFollowing (run : Reaches setting Rule world last) (numbered : world.store.IsNumbered)
    (available : ∀ shared, Rule shared → shared.world.store.available = true) :
    last.IsFollowing := by
  induction run with
  | start => exact fun _ => rfl
  | step before next rule ih =>
      obtain ⟨same, kept, rfl⟩ := before.exists_rule
      exact (ih.turn (next.turn (before.isWired numbered)) (available same kept) :)

private theorem isCurrent (run : Reaches setting Rule world last)
    (orderly : ∀ shared, Rule shared → shared.IsOrderly) : last.IsCurrent setting := by
  induction run with
  | start => rfl
  | step before next rule ih =>
      obtain ⟨same, kept, rfl⟩ := before.exists_rule
      exact (ih.step (orderly same kept) next (orderly _ rule) :)

/-- While subscriptions can be made, orderly calls leave the subscription to the channels of the registered
tables when they are over and the listener has followed. -/
theorem live_eq_of_orderly (run : Reaches setting Rule world last)
    (numbered : world.store.IsNumbered)
    (available : ∀ shared, Rule shared → shared.world.store.available = true)
    (orderly : ∀ shared, Rule shared → shared.IsOrderly) (ended : last.calls = [])
    (followed : last.queue = []) (runs : last.world.cache.listener.running = true) :
    last.live = Channel.watched (last.world.cache.channels setting) := by
  have live := (run.isFollowing numbered available).live_eq (run.isWired numbered) followed
  have current := run.isCurrent orderly
  unfold IsCurrent untold at current
  rw [ended] at current
  rw [live, ← current]
  unfold heeded
  rw [if_pos runs]
  rfl

/-- While subscriptions can be made, when all calls are over and all commands followed, the subscription is
to the channels of the registered tables exactly if these are what the listener was told last and it runs.
So it is after calls that were orderly throughout. -/
theorem live_eq_iff (run : Reaches setting Rule world last) (numbered : world.store.IsNumbered)
    (available : ∀ shared, Rule shared → shared.world.store.available = true)
    (ended : last.calls = []) (followed : last.queue = []) :
    (last.live = Channel.watched (last.world.cache.channels setting) ↔
        last.heeded = last.world.cache.channels setting) ∧
      ((∀ shared, Rule shared → shared.IsOrderly) → last.world.cache.listener.running = true →
        last.live = Channel.watched (last.world.cache.channels setting)) := by
  refine ⟨?_, fun orderly runs => run.live_eq_of_orderly numbered available orderly ended followed runs⟩
  rw [(run.isFollowing numbered available).live_eq (run.isWired numbered) followed,
    Channel.watched_inj]

end Reaches

/-- Two calls register a table each, and the one that took the channels first tells them last. -/
theorem olderChannels_uncoverTable :
    ∃ last, Reaches twoTables (fun shared => shared.world.store.available = true) emptyWorld last ∧
      last.calls = [] ∧ last.queue = [] ∧ last.world.cache.listener.running = true ∧
      "VLAN" ∈ last.world.cache.entries ∧ last.live = some ["__keyspace@0__:PORT|*"] :=
  ⟨_, Reaches.start (by decide +kernel)
    |>.step (.beginAdd "PORT" 0 (by decide +kernel)) (by decide +kernel)
    |>.step (.beginAdd "VLAN" 0 (by decide +kernel)) (by decide +kernel)
    |>.step (.tellAdd "VLAN" 0 ["__keyspace@0__:PORT|*", "__keyspace@0__:VLAN|*"]
      (by decide +kernel)) (by decide +kernel)
    |>.step (.tellAdd "PORT" 0 ["__keyspace@0__:PORT|*"] (by decide +kernel)) (by decide +kernel)
    |>.step (.takeCommand (by decide +kernel)) (by decide +kernel)
    |>.step (.renew ["__keyspace@0__:PORT|*", "__keyspace@0__:VLAN|*"] (by decide +kernel))
      (by decide +kernel)
    |>.step (.takeCommand (by decide +kernel)) (by decide +kernel)
    |>.step (.renew ["__keyspace@0__:PORT|*"] (by decide +kernel)) (by decide +kernel)
    |>.step (.finishAdd "VLAN" 0 1 (by decide +kernel) (by decide +kernel)) (by decide +kernel)
    |>.step (.finishAdd "PORT" 0 2 (by decide +kernel) (by decide +kernel)) (by decide +kernel),
    by decide +kernel⟩

/-- Two calls register a table each, and tell the channels as they took them. -/
theorem live_of_tablesInTurn :
    ∃ last, Reaches twoTables (fun shared => shared.world.store.available = true ∧ shared.IsOrderly)
        emptyWorld last ∧
      last.calls = [] ∧ last.queue = [] ∧ last.world.cache.listener.running = true ∧
      last.live = Channel.watched (last.world.cache.channels twoTables) := by
  obtain ⟨last, run, ended, followed, runs⟩ : ∃ last, Reaches twoTables
        (fun shared => shared.world.store.available = true ∧ shared.IsOrderly) emptyWorld last ∧
      last.calls = [] ∧ last.queue = [] ∧ last.world.cache.listener.running = true :=
    ⟨_, Reaches.start (by decide +kernel)
      |>.step (.beginAdd "PORT" 0 (by decide +kernel)) (by decide +kernel)
      |>.step (.tellAdd "PORT" 0 ["__keyspace@0__:PORT|*"] (by decide +kernel)) (by decide +kernel)
      |>.step (.beginAdd "VLAN" 0 (by decide +kernel)) (by decide +kernel)
      |>.step (.takeCommand (by decide +kernel)) (by decide +kernel)
      |>.step (.tellAdd "VLAN" 0 ["__keyspace@0__:PORT|*", "__keyspace@0__:VLAN|*"]
        (by decide +kernel)) (by decide +kernel)
      |>.step (.renew ["__keyspace@0__:PORT|*"] (by decide +kernel)) (by decide +kernel)
      |>.step (.takeCommand (by decide +kernel)) (by decide +kernel)
      |>.step (.renew ["__keyspace@0__:PORT|*", "__keyspace@0__:VLAN|*"] (by decide +kernel))
        (by decide +kernel)
      |>.step (.finishAdd "VLAN" 0 2 (by decide +kernel) (by decide +kernel)) (by decide +kernel)
      |>.step (.finishAdd "PORT" 0 1 (by decide +kernel) (by decide +kernel)) (by decide +kernel),
      by decide +kernel⟩
  exact ⟨last, run, ended, followed, runs, (run.live_eq_iff isNumbered_emptyWorld
    (fun _ rule => rule.1) ended followed).2 (fun _ rule => rule.2) runs⟩

end SharedCache

end ConfigVetting
