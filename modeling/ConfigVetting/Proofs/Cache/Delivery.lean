import ConfigVetting.Proofs.Cache.Coverage

/-! # What becomes of a write

A write to a table with a document is announced to the listener if it has a subscription at all
(`ConfigVetting.SharedCache.exists_mem_inbox`), so the record of the writes accounts for it from then on
(`ConfigVetting.SharedCache.IsTracked`): its notification waits, or was handled, or was lost with a
subscription. When the listener has nothing to do, a write that is due was handled exactly if it was not
lost (`ConfigVetting.SharedCache.Reaches.handled_iff`).
-/

namespace ConfigVetting

namespace SharedCache

variable {setting : Setting} {shared later : SharedCache}

/-- The notifications that wait for the listener. -/
def inbox (shared : SharedCache) : List Notification :=
  (shared.world.subscriber?.map Subscriber.pending).getD []

private theorem inbox_congr (subscriber : later.world.subscriber? = shared.world.subscriber?) :
    later.inbox = shared.inbox := by
  unfold inbox
  rw [subscriber]

private theorem Step.database_eq (next : Step setting shared later) :
    later.world.store.database = shared.world.store.database := by
  cases next with
  | write write => exact (congrArg Store.database (write.apply_eq shared.world.store) :)
  | setAvailable available => rfl
  | beginAdd name expirySecs known => rfl
  | beginRemove name =>
      rcases beginRemove_cases setting shared name with same | same
      all_goals rw [same]
  | tellAdd name expirySecs channels begun => rfl
  | tellRemove channels begun => rfl
  | finishAdd name expirySecs ticket begun followed =>
      obtain ⟨middle, same, ⟨document, finished⟩ | finished⟩ :=
        finishAdd_cases setting shared name expirySecs ticket
      · rw [finished]
        exact same.database
      · rw [finished]
        exact same.database
  | invalidate name => exact (Cache.sameWatch_invalidate name shared.world).database
  | stop => rfl
  | takeCommand idle =>
      rcases shared.takeCommand_cases with ⟨_, same⟩ | ⟨_, store, _, _, _, database,
        ⟨_, _, same⟩ | ⟨_, same⟩⟩
      · rw [same]
      · rw [same]
        exact database
      · rw [same]
        exact database
  | renew channels amid =>
      unfold SharedCache.renew
      rcases Listener.run_subscribe channels shared.world with ⟨same, _⟩ | ⟨_, _, same⟩
      all_goals rw [same]
  | handle idle =>
      refine (Listener.sameWatch_handleNext setting shared.world).database.trans ?_
      rw [World.received_eq]

/-- A write adds to the notifications that wait, and nothing if there is no subscription. -/
theorem inbox_write (write : StoreWrite) :
    (shared.write setting write).inbox = shared.inbox ++
      if (shared.live.getD []).any fun pattern =>
          Channel.covered pattern (Channel.ofKey shared.world.store.database write.key)
      then (write.kinds shared.world.store).map
        (Notification.ofKey shared.world.store.database write.key)
      else [] := by
  unfold inbox live
  rw [subscriber?_write]
  cases shared.world.subscriber? with
  | none => rfl
  | some subscriber =>
      simp only [Option.map_some, Option.getD_some, Subscriber.hear]
      split
      next => rfl
      next => exact (List.append_nil _).symm

/-- Whether the record accounts for all writes that are due. -/
structure IsTracked (shared : SharedCache) : Prop where
  waiting : shared.writes.waiting.length = shared.inbox.length
  made : ∀ number, number ∈ shared.writes.waiting ∨ number ∈ shared.writes.handled.map Prod.fst ∨
    number ∈ shared.writes.lost → number < shared.writes.made
  apart : ∀ number ∈ shared.writes.lost,
    number ∉ shared.writes.waiting ∧ number ∉ shared.writes.handled.map Prod.fst
  due : ∀ due ∈ shared.writes.due, due.number ∈ shared.writes.waiting ∨
    due.number ∈ shared.writes.handled.map Prod.fst ∨ due.number ∈ shared.writes.lost
  heard : ∀ announced ∈ shared.writes.handled, announced.2 ∈ shared.world.heard
  keys : ∀ due ∈ shared.writes.due,
    ∀ announced ∈ shared.writes.handled ++ shared.writes.waiting.zip shared.inbox,
      announced.1 = due.number → announced.2.key = some due.key

private theorem IsTracked.of_eq (tracked : shared.IsTracked) (inbox : later.inbox = shared.inbox)
    (writes : later.writes = shared.writes) (heard : later.world.heard = shared.world.heard) :
    later.IsTracked := by
  obtain ⟨waiting, made, apart, due, told, keys⟩ := tracked
  rw [← writes] at waiting made apart due told keys
  rw [← inbox] at waiting keys
  rw [← heard] at told
  exact ⟨waiting, made, apart, due, told, keys⟩

/-- A table with a document hears of the write that changes one of its rows. -/
theorem exists_mem_inbox (covered : shared.IsCovered setting)
    (database : shared.world.store.database = setting.database) {write : StoreWrite} {name : String}
    (changed : name ∈ shared.world.changedTables setting write) {patterns : List String}
    (subscribed : shared.live = some patterns) :
    ∃ news, news ≠ [] ∧ (shared.write setting write).inbox = shared.inbox ++ news := by
  unfold World.changedTables at changed
  split at changed
  next => cases changed
  next differs =>
    obtain ⟨registered, kept⟩ := List.mem_filter.mp changed
    obtain ⟨built, owned⟩ := Bool.and_eq_true_iff.mp kept
    have held : name ∈ shared.world.cache.entries := Std.ExtTreeMap.mem_keys.mp registered
    -- A table that is being added has no document.
    have settled : ∀ call ∈ shared.calls, call.adding? ≠ some name := by
      intro call begun adds
      rw [(covered.adding call begun name adds).2] at built
      cases built
    cases known : setting.schema.table? name with
    | none =>
        rw [known] at owned
        cases owned
    | some table =>
        rw [known] at owned
        obtain ⟨rowKey, own⟩ := Option.isSome_iff_exists.mp owned
        have pattern := (covered.covered name held settled).1 (Nat.zero_le _) patterns subscribed
          table known
        rw [← database] at pattern
        have announced : ((shared.live.getD []).any fun pattern =>
            Channel.covered pattern (Channel.ofKey shared.world.store.database write.key)) = true := by
          rw [subscribed]
          exact List.any_eq_true.mpr ⟨_, pattern, Channel.covered_ofTable _ own⟩
        refine ⟨_, ?_, inbox_write write⟩
        rw [if_pos announced]
        exact fun none => StoreWrite.kinds_ne_nil differs (List.map_eq_nil_iff.mp none)

private theorem waiting_write (wired : shared.IsWired) {write : StoreWrite} {news : List Notification}
    (grown : (shared.write setting write).inbox = shared.inbox ++ news) :
    (shared.write setting write).writes.waiting =
      shared.writes.waiting ++ news.map fun _ => shared.writes.made := by
  have before : Listener.pending shared.world = shared.inbox := World.pending_eq wired.numbered
  have after : Listener.pending (shared.write setting write).world = shared.inbox ++ news :=
    (World.pending_eq ((Step.write write : Step setting shared _).isNumbered wired.numbered)).trans grown
  have notified : (Listener.pending (shared.write setting write).world).drop
      (Listener.pending shared.world).length = news := by
    rw [before, after, List.drop_left]
  exact congrArg (fun notified : List Notification =>
    shared.writes.waiting ++ notified.map fun _ => shared.writes.made) notified

private theorem mem_lost_write (write : StoreWrite) {number : Nat} :
    number ∈ (shared.write setting write).writes.lost ↔
      number ∈ shared.writes.lost ∨ shared.live = none ∧ number = shared.writes.made := by
  have lost : (shared.write setting write).writes.lost =
      if shared.world.subscriber?.isSome then shared.writes.lost
      else shared.writes.lost ++ [shared.writes.made] := rfl
  rw [lost]
  unfold live
  cases shared.world.subscriber? with
  | none => simp
  | some subscriber => simp

private theorem mem_due_write (write : StoreWrite) {due : DueWrite}
    (member : due ∈ (shared.write setting write).writes.due) :
    due ∈ shared.writes.due ∨ due.number = shared.writes.made ∧ due.key = write.key ∧
      due.table ∈ shared.world.changedTables setting write := by
  rcases List.mem_append.mp member with before | new
  · exact Or.inl before
  · obtain ⟨name, changed, rfl⟩ := List.mem_map.mp new
    exact Or.inr ⟨rfl, rfl, changed⟩

private theorem IsTracked.number_lt (tracked : shared.IsTracked) {due : DueWrite}
    (member : due ∈ shared.writes.due) : due.number < shared.writes.made :=
  tracked.made due.number (tracked.due due member)

/-- A notification that was handled or waits is of a write that was made. -/
theorem IsTracked.announced_lt (tracked : shared.IsTracked) {announced : Nat × Notification}
    (member : announced ∈ shared.writes.handled ++ shared.writes.waiting.zip shared.inbox) :
    announced.1 < shared.writes.made := by
  refine tracked.made announced.1 ?_
  rcases List.mem_append.mp member with handled | waits
  · exact Or.inr (Or.inl (List.mem_map_of_mem handled))
  · exact Or.inl (List.of_mem_zip waits).1

private theorem IsTracked.write (tracked : shared.IsTracked) (wired : shared.IsWired)
    (covered : shared.IsCovered setting) (database : shared.world.store.database = setting.database)
    (write : StoreWrite) : (shared.write setting write).IsTracked := by
  obtain ⟨news, grown, silent, named⟩ :
      ∃ news, (shared.write setting write).inbox = shared.inbox ++ news ∧
        (shared.live = none → news = []) ∧
        ∀ notification ∈ news, notification.key = some write.key := by
    refine ⟨_, inbox_write write, fun none => by rw [none]; rfl, fun notification member => ?_⟩
    split at member
    next =>
      obtain ⟨kind, _, rfl⟩ := List.mem_map.mp member
      exact Notification.key_ofKey _ _ _
    next => cases member
  have waiting : ∀ number, number ∈ (shared.write setting write).writes.waiting ↔
      number ∈ shared.writes.waiting ∨ news ≠ [] ∧ number = shared.writes.made := by
    intro number
    rw [waiting_write wired grown, List.mem_append, List.mem_map]
    cases news <;> simp [eq_comm]
  have lost : ∀ number, number ∈ (shared.write setting write).writes.lost ↔ _ :=
    fun _ => mem_lost_write write
  have handled : (shared.write setting write).writes.handled = shared.writes.handled := rfl
  have fresh := fun known => Nat.lt_irrefl _ (tracked.made shared.writes.made known)
  refine ⟨?_, fun number known => ?_, fun number member => ?_, fun due member => ?_, tracked.heard,
    fun due member announced known same => ?_⟩
  · rw [waiting_write wired grown, grown, List.length_append, List.length_append, List.length_map,
      tracked.waiting]
  · change number < shared.writes.made + 1
    rw [waiting, handled, lost] at known
    have := tracked.made number
    grind
  · rw [lost] at member
    rw [waiting, handled]
    have := tracked.apart number
    grind
  · rw [waiting, handled, lost]
    rcases mem_due_write write member with before | ⟨own, _, changed⟩
    · have := tracked.due due before
      grind
    · rw [own]
      cases subscribed : shared.live with
      | none => exact Or.inr (Or.inr (Or.inr ⟨rfl, rfl⟩))
      | some patterns =>
          obtain ⟨others, some, same⟩ := exists_mem_inbox covered database changed subscribed
          rw [List.append_cancel_left (grown.symm.trans same)]
          exact Or.inl (Or.inr ⟨some, rfl⟩)
  · rw [handled, waiting_write wired grown, grown, List.zip_append tracked.waiting, ← List.append_assoc,
      List.mem_append] at known
    rcases known with before | new
    · -- What was announced before is of an earlier write.
      have earlier := tracked.announced_lt before
      rcases mem_due_write write member with old | ⟨own, _, _⟩
      · exact tracked.keys due old announced before same
      · omega
    · obtain ⟨number, told⟩ := List.of_mem_zip new
      obtain ⟨_, _, number⟩ := List.mem_map.mp number
      rcases mem_due_write write member with old | ⟨_, key, _⟩
      · have earlier := tracked.number_lt old
        omega
      · rw [key]
        exact named announced.2 told

/-- What is given up was handled or is lost. -/
theorem IsTracked.giveUp (tracked : shared.IsTracked) {world : World}
    (gone : (shared.giveUp world).inbox = []) (heard : world.heard = shared.world.heard) :
    (shared.giveUp world).IsTracked := by
  have lost : ∀ number, number ∈ (shared.giveUp world).writes.lost ↔ number ∈ shared.writes.lost ∨
      number ∈ shared.writes.waiting ∧ number ∉ shared.writes.handled.map Prod.fst := by
    intro number
    simp [SharedCache.giveUp]
  have waiting : (shared.giveUp world).writes.waiting = [] := rfl
  have handled : (shared.giveUp world).writes.handled = shared.writes.handled := rfl
  have made : (shared.giveUp world).writes.made = shared.writes.made := rfl
  refine ⟨?_, fun number known => ?_, fun number member => ?_, fun due member => ?_,
    fun announced member => ?_, fun due member announced known => ?_⟩
  · rw [gone]
    rfl
  · rw [waiting, handled, lost] at known
    have := tracked.made number
    grind
  · rw [lost] at member
    rw [waiting, handled]
    have := tracked.apart number
    grind
  · rw [waiting, handled, lost]
    have := tracked.due due member
    grind
  · rw [show (shared.giveUp world).world.heard = shared.world.heard from heard]
    exact tracked.heard announced member
  · rw [waiting, handled, List.zip_nil_left, List.append_nil] at known
    exact tracked.keys due member announced (List.mem_append_left _ known)

/-- Handling the oldest notification that waits notifies the cache of just that. -/
theorem heard_handle (wired : shared.IsWired) :
    (shared.handle setting).world.heard = shared.world.heard ++ shared.inbox.take 1 := by
  have same := (Listener.sameWatch_handleNext setting shared.world).heard
  rw [World.pending_eq wired.numbered, World.received_eq] at same
  exact same

private theorem handled_handle (wired : shared.IsWired) :
    (shared.handle setting).writes.handled =
      shared.writes.handled ++ (shared.writes.waiting.zip shared.inbox).take 1 := by
  have logged : (shared.handle setting).writes.handled = shared.writes.handled ++
      shared.writes.waiting.zip
        ((shared.handle setting).world.heard.drop shared.world.heard.length) := rfl
  rw [logged, heard_handle wired, List.drop_left]
  cases shared.writes.waiting with
  | nil => rfl
  | cons number waiting => cases shared.inbox <;> simp

private theorem IsTracked.handle (tracked : shared.IsTracked) (wired : shared.IsWired)
    (next : (shared.handle setting).inbox = shared.inbox.tail) :
    (shared.handle setting).IsTracked := by
  have waiting : (shared.handle setting).writes.waiting = shared.writes.waiting.tail := rfl
  have handled : (shared.handle setting).writes.handled = _ := handled_handle wired
  have numbers : (shared.handle setting).writes.handled.map Prod.fst =
      shared.writes.handled.map Prod.fst ++ shared.writes.waiting.take 1 := by
    rw [handled, List.map_append, List.map_take, List.map_fst_zip tracked.waiting.le]
  have lost : (shared.handle setting).writes.lost = shared.writes.lost := rfl
  have made : (shared.handle setting).writes.made = shared.writes.made := rfl
  have moved : ∀ number, number ∈ shared.writes.waiting ↔
      number ∈ shared.writes.waiting.take 1 ∨ number ∈ shared.writes.waiting.tail := by
    intro number
    rw [← List.mem_append, ← List.drop_one, List.take_append_drop]
  refine ⟨?_, fun number known => ?_, fun number member => ?_, fun each member => ?_,
    fun announced member => ?_, fun each member announced known => ?_⟩
  · rw [waiting, next, List.length_tail, List.length_tail, tracked.waiting]
  · rw [waiting, numbers, lost, List.mem_append] at known
    have := tracked.made number
    rw [moved] at this
    grind
  · rw [lost] at member
    rw [waiting, numbers, List.mem_append]
    have := tracked.apart number member
    rw [moved] at this
    grind
  · rw [waiting, numbers, lost, List.mem_append]
    have := tracked.due each member
    rw [moved] at this
    grind
  · rw [handled, List.zip, List.take_zipWith] at member
    rw [heard_handle wired, List.mem_append]
    rcases List.mem_append.mp member with before | now
    · exact Or.inl (tracked.heard announced before)
    · exact Or.inr (List.of_mem_zip now).2
  · rw [handled, waiting, next, ← List.tail_zip, ← List.drop_one, List.append_assoc,
      List.take_append_drop] at known
    exact tracked.keys each member announced known

private theorem IsTracked.step (tracked : shared.IsTracked) (wired : shared.IsWired)
    (covered : shared.IsCovered setting) (database : shared.world.store.database = setting.database)
    (next : Step setting shared later) : later.IsTracked := by
  have posted : ∀ command, (shared.world.cache.post command).listener.subscription =
      shared.world.cache.listener.subscription := fun command => by rw [post_eq]
  cases next with
  | write write => exact tracked.write wired covered database write
  | setAvailable available => exact tracked.of_eq rfl rfl rfl
  | beginAdd name expirySecs known => exact tracked.of_eq rfl rfl rfl
  | beginRemove name =>
      rcases beginRemove_cases setting shared name with same | same
      · rwa [same]
      · rw [same]
        exact tracked.of_eq rfl rfl rfl
  | tellAdd name expirySecs channels begun =>
      exact tracked.of_eq (inbox_congr (World.subscriber?_congr (posted _) rfl)) rfl rfl
  | tellRemove channels begun =>
      exact tracked.of_eq (inbox_congr (World.subscriber?_congr (posted _) rfl)) rfl rfl
  | finishAdd name expirySecs ticket begun followed =>
      obtain ⟨middle, same, ⟨document, finished⟩ | finished⟩ :=
        finishAdd_cases setting shared name expirySecs ticket
      · rw [finished]
        exact tracked.of_eq (inbox_congr same.subscriber?_eq) rfl
          (same.heard.trans (List.append_nil _))
      · rw [finished]
        exact tracked.of_eq (inbox_congr same.subscriber?_eq) rfl
          (same.heard.trans (List.append_nil _))
  | invalidate name =>
      have same := Cache.sameWatch_invalidate name shared.world
      exact tracked.of_eq (inbox_congr same.subscriber?_eq) rfl (same.heard.trans (List.append_nil _))
  | stop => exact tracked.of_eq (inbox_congr (World.subscriber?_congr (posted _) rfl)) rfl rfl
  | takeCommand idle =>
      rcases shared.takeCommand_cases with ⟨_, same⟩ | ⟨_, store, _, _, _, _,
        ⟨_, _, same⟩ | ⟨_, same⟩⟩
      · rwa [same]
      · rw [same]
        exact (tracked.giveUp (by rfl) (by rfl)).of_eq rfl rfl rfl
      · rw [same]
        exact tracked.giveUp rfl rfl
  | renew channels amid =>
      unfold SharedCache.renew
      rcases Listener.run_subscribe channels shared.world with ⟨same, _⟩ | ⟨_, _, same⟩
      · rw [same]
        exact tracked.of_eq rfl rfl rfl
      · rw [same]
        refine tracked.of_eq ?_ rfl rfl
        -- In the middle of a command there was no subscription.
        have none : shared.world.subscriber? = .none :=
          Option.map_eq_none_iff.mp (wired.amid (by simp [amid]))
        have fresh := congrArg (Option.map Subscriber.pending)
          (wired.numbered.find?_push channels)
        unfold inbox
        rw [none]
        exact (congrArg (Option.getD · []) fresh :)
  | handle idle =>
      refine tracked.handle wired ?_
      have same := Listener.sameWatch_handleNext setting shared.world
      have received := same.subscriber?_eq.trans shared.world.subscriber?_received
      unfold inbox
      rw [show (shared.handle setting).world.subscriber? = _ from received]
      cases shared.world.subscriber? <;> rfl

private theorem IsTracked.forgetDropped (tracked : shared.IsTracked) : shared.forgetDropped.IsTracked :=
  ⟨tracked.waiting, tracked.made, tracked.apart,
    fun due member => tracked.due due (List.mem_filter.mp member).1, tracked.heard,
    fun due member => tracked.keys due (List.mem_filter.mp member).1⟩

private theorem isTracked_start (world : World) : (start world).IsTracked where
  waiting := rfl
  made number known := by rcases known with known | known | known <;> cases known
  apart number lost := by cases lost
  due due member := by cases member
  heard announced member := by cases member
  keys due member := by cases member

namespace Reaches

variable {Rule : SharedCache → Prop} {world : World} {last : SharedCache}

theorem database_eq (run : Reaches setting Rule world last) :
    last.world.store.database = world.store.database := by
  induction run with
  | start => rfl
  | step _ next _ ih => exact next.database_eq.trans ih

private theorem isTracked (run : Reaches setting Rule world last) (numbered : world.store.IsNumbered)
    (database : world.store.database = setting.database)
    (sequential : ∀ shared, Rule shared → shared.IsSequential) : last.IsTracked := by
  induction run with
  | start => exact isTracked_start world
  | step before next _ ih =>
      exact (ih.step (before.isWired numbered) (before.isCovered numbered sequential)
        (before.database_eq.trans database) next).forgetDropped

/-- **In a run of calls that are made one at a time**, when the listener has nothing to do, the cache was
notified of a write to a table with a document, by its key, exactly if the write was not lost with a
subscription. -/
theorem handled_iff (run : Reaches setting IsSequential world last)
    (numbered : world.store.IsNumbered) (database : world.store.database = setting.database)
    (quiet : last.IsQuiet) {due : DueWrite} (member : due ∈ last.writes.due) :
    (∃ notification ∈ last.world.heard, (due.number, notification) ∈ last.writes.handled ∧
        notification.key = some due.key) ↔ due.number ∉ last.writes.lost := by
  have tracked := run.isTracked numbered database fun _ sequential => sequential
  have wired := run.isWired numbered
  have waiting : last.writes.waiting = [] := by
    refine List.eq_nil_of_length_eq_zero (tracked.waiting.trans ?_)
    rw [show last.inbox = [] from (World.pending_eq wired.numbered).symm.trans quiet.2.2]
    rfl
  constructor
  · rintro ⟨notification, _, handled, _⟩ lost
    exact (tracked.apart due.number lost).2 (List.mem_map_of_mem handled)
  · intro kept
    rcases tracked.due due member with waits | handled | lost
    · rw [waiting] at waits
      cases waits
    · obtain ⟨⟨number, notification⟩, announced, own⟩ := List.mem_map.mp handled
      cases own
      exact ⟨notification, tracked.heard _ announced, announced,
        tracked.keys due member _ (List.mem_append_left _ announced) rfl⟩
    · exact absurd lost kept

end Reaches

/-- A write of a row of the first table. -/
def writePort : StoreWrite :=
  .setFields "PORT|x" ((∅ : Fields).insert "mtu" "1500")

/-- The first table registered by a call that nothing interrupts. -/
def watchedPort : SharedCache :=
  let channels := ["__keyspace@0__:PORT|*"]
  let told := ((start emptyWorld).beginAdd twoTables "PORT" 0).forgetDropped.tellAdd "PORT" 0 channels
  let followed := (told.forgetDropped.takeCommand.forgetDropped.renew channels).forgetDropped
  (followed.finishAdd twoTables "PORT" 0 1).forgetDropped

private theorem reaches_watchedPort : Reaches twoTables IsSequential emptyWorld watchedPort :=
  Reaches.start (by decide +kernel)
    |>.step (.beginAdd "PORT" 0 (by decide +kernel)) (by decide +kernel)
    |>.step (.tellAdd "PORT" 0 ["__keyspace@0__:PORT|*"] (by decide +kernel)) (by decide +kernel)
    |>.step (.takeCommand (by decide +kernel)) (by decide +kernel)
    |>.step (.renew ["__keyspace@0__:PORT|*"] (by decide +kernel)) (by decide +kernel)
    |>.step (.finishAdd "PORT" 0 1 (by decide +kernel) (by decide +kernel)) (by decide +kernel)

/-- The announcement of the write. -/
def portWritten : Notification :=
  .ofKey 0 "PORT|x" .fieldsSet

/-- Registering the second table gives up a notification of the first one that waits: of two writes of a row
the cache is notified of the first one only. -/
theorem addTable_losesWrite :
    ∃ last, Reaches twoTables IsSequential emptyWorld last ∧ last.calls = [] ∧ last.IsQuiet ∧
      (⟨0, "PORT|x", "PORT"⟩ : DueWrite) ∈ last.writes.due ∧
      (⟨1, "PORT|x", "PORT"⟩ : DueWrite) ∈ last.writes.due ∧
      last.world.heard = [portWritten] ∧ last.writes.handled = [(0, portWritten)] :=
  ⟨_, reaches_watchedPort
    |>.step (.write writePort) (by decide +kernel)
    |>.step (.handle (by decide +kernel)) (by decide +kernel)
    |>.step (.write (.deleteRow "PORT|x")) (by decide +kernel)
    |>.step (.beginAdd "VLAN" 0 (by decide +kernel)) (by decide +kernel)
    |>.step (.tellAdd "VLAN" 0 ["__keyspace@0__:PORT|*", "__keyspace@0__:VLAN|*"]
      (by decide +kernel)) (by decide +kernel)
    |>.step (.takeCommand (by decide +kernel)) (by decide +kernel)
    |>.step (.renew ["__keyspace@0__:PORT|*", "__keyspace@0__:VLAN|*"] (by decide +kernel))
      (by decide +kernel)
    |>.step (.finishAdd "VLAN" 0 2 (by decide +kernel) (by decide +kernel)) (by decide +kernel),
    by decide +kernel⟩

/-- A write that the listener handles before anything else happens. -/
theorem handled_of_undisturbed :
    ∃ last, Reaches twoTables IsSequential emptyWorld last ∧ last.IsQuiet ∧
      (⟨0, "PORT|x", "PORT"⟩ : DueWrite) ∈ last.writes.due ∧
      ∃ notification ∈ last.world.heard, (0, notification) ∈ last.writes.handled ∧
        notification.key = some "PORT|x" := by
  obtain ⟨last, run, quiet, due, kept⟩ : ∃ last, Reaches twoTables IsSequential emptyWorld last ∧
      last.IsQuiet ∧ (⟨0, "PORT|x", "PORT"⟩ : DueWrite) ∈ last.writes.due ∧ 0 ∉ last.writes.lost :=
    ⟨_, reaches_watchedPort
      |>.step (.write writePort) (by decide +kernel)
      |>.step (.handle (by decide +kernel)) (by decide +kernel), by decide +kernel⟩
  exact ⟨last, run, quiet, due, (run.handled_iff isNumbered_emptyWorld rfl quiet due).mpr kept⟩

end SharedCache

end ConfigVetting
