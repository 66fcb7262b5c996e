import ConfigVetting.Proofs.Cache.Announcing

/-! # The channels of cached tables

Calls that are made one at a time keep the listener on the registered tables: its subscription, if it has
one, and all that it has still to follow name the channels of each registered table, but for the one that
is being added until its own command is followed (`ConfigVetting.SharedCache.IsCovered`). That one has no
document yet, so a table with a document is never without its channels in a subscription
(`ConfigVetting.SharedCache.Reaches.isCovered`).
-/

namespace ConfigVetting

/-- Whether channels have that of a table among them. -/
def Setting.Covers (setting : Setting) (channels : List String) (name : String) : Prop :=
  ∀ table, setting.schema.table? name = some table →
    Channel.ofTable setting.database table.name table.keyDelimiter ∈ channels

private theorem Cache.covers_channels {setting : Setting} {cache : Cache} {name : String}
    (registered : name ∈ cache.entries) : setting.Covers (cache.channels setting) name := by
  intro table known
  refine List.mem_map.mpr ⟨table, List.mem_filterMap.mpr ⟨name, ?_, known⟩, rfl⟩
  exact Std.ExtTreeMap.mem_keys.mpr registered

namespace SharedCache

variable {setting : Setting} {shared later : SharedCache} {name : String}

/-- Whether a table is in the channels of the subscription, if so many commands are followed, and of all
that is followed from that command on. -/
def CoversFrom (setting : Setting) (shared : SharedCache) (name : String) (ticket : Nat) : Prop :=
  (ticket ≤ shared.followed → ∀ channels, shared.live = some channels →
      setting.Covers channels name) ∧
    ∀ channels, .resubscribe channels ∈ shared.queue.drop (ticket - shared.followed - 1) →
      setting.Covers channels name

private theorem coversFrom_of_idle (live : shared.live = none) (queue : shared.queue = []) (ticket : Nat) :
    shared.CoversFrom setting name ticket := by
  refine ⟨fun _ channels subscribed => ?_, fun channels waiting => ?_⟩
  · rw [live] at subscribed
    cases subscribed
  · rw [queue, List.drop_nil] at waiting
    cases waiting

/-- A table stays in the channels if it is in those that are told. -/
theorem CoversFrom.turn {ticket : Nat} (covers : shared.CoversFrom setting name ticket)
    (turn : Turn shared later)
    (told : ∀ channels ∈ shared.calls.filterMap CacheCall.untold?, setting.Covers channels name) :
    later.CoversFrom setting name ticket := by
  obtain ⟨subscribed, waiting⟩ := covers
  cases turn with
  | kept live queue _ followed =>
      unfold CoversFrom
      rw [live, queue, followed]
      exact ⟨subscribed, waiting⟩
  | told command live queue _ followed _ said =>
      unfold CoversFrom
      rw [live, queue, followed]
      refine ⟨subscribed, fun channels member => ?_⟩
      split at member
      · rw [List.drop_append, List.mem_append] at member
        rcases member with before | own
        · exact waiting channels before
        · have same := List.mem_singleton.mp (List.mem_of_mem_drop own)
          rcases said with ⟨rfl, _⟩ | ⟨others, untold, rfl, _⟩
          · cases same
          · cases same
            exact told channels untold
      · exact waiting channels member
  | taken live queue followed =>
      unfold CoversFrom
      rw [live, queue, followed]
      refine ⟨fun _ channels none => ?_, waiting⟩
      cases none
  | stopped live queue => exact coversFrom_of_idle live queue ticket
  | renewed channels queue live _ followed =>
      unfold CoversFrom
      rw [queue] at waiting
      rw [followed]
      refine ⟨fun reached given subscribed => ?_, fun given member => waiting given ?_⟩
      · rcases live with ⟨none, _⟩ | ⟨some, _⟩
        · rw [none] at subscribed
          cases subscribed
        · rw [some] at subscribed
          cases subscribed
          refine waiting channels ?_
          rw [show ticket - shared.followed - 1 = 0 by omega]
          exact List.mem_cons_self
      · by_cases ahead : 2 ≤ ticket - shared.followed
        · rwa [show ticket - shared.followed - 1 = ticket - (shared.followed + 1) - 1 + 1 by omega,
            List.drop_succ_cons]
        · rw [show ticket - shared.followed - 1 = 0 by omega]
          exact List.mem_cons_of_mem _ (List.mem_of_mem_drop member)

/-- Once the listener has followed what it was just told, the tables in it are covered. -/
theorem coversFrom_told (wired : shared.IsWired) {channels : List String}
    (covers : setting.Covers channels name) :
    (shared.tell channels).CoversFrom setting name
      ((shared.tell channels).followed + (shared.tell channels).outstanding) := by
  have live : (shared.tell channels).live = shared.live := by
    change { shared with
      world := { shared.world with cache := shared.world.cache.post _ }
      announced := channels : SharedCache }.live = _
    rw [post_eq]
    rfl
  have queue : (shared.tell channels).queue = if shared.world.cache.listener.running
      then shared.queue ++ [.resubscribe channels] else shared.queue := queue_post shared _
  cases running : shared.world.cache.listener.running with
  | false =>
      obtain ⟨gone, empty⟩ := wired.stopped running
      rw [running, if_neg Bool.false_ne_true, empty] at queue
      exact coversFrom_of_idle (live.trans gone) queue _
  | true =>
      rw [running, if_pos rfl] at queue
      have outstanding : (shared.tell channels).outstanding = shared.queue.length + 1 := by
        rw [← length_queue, queue, List.length_append, List.length_singleton]
      refine ⟨fun reached => ?_, fun given member => ?_⟩
      · omega
      · rw [queue, outstanding, show (shared.tell channels).followed + (shared.queue.length + 1) -
          (shared.tell channels).followed - 1 = shared.queue.length by omega, List.drop_left,
          List.mem_singleton] at member
        cases member
        exact covers

private theorem IsSequential.eq_singleton (sequential : shared.IsSequential) {call : CacheCall}
    (begun : call ∈ shared.calls) : shared.calls = [call] := by
  unfold IsSequential at sequential
  cases calls : shared.calls with
  | nil =>
      rw [calls] at begun
      cases begun
  | cons first others =>
      rw [calls] at begun sequential
      cases others with
      | nil => rw [List.mem_singleton.mp begun]
      | cons second others => simp at sequential

/-- Whether the listener is kept on the registered tables. -/
structure IsCovered (setting : Setting) (shared : SharedCache) : Prop where
  covered : ∀ name ∈ shared.world.cache.entries,
    (∀ call ∈ shared.calls, call.adding? ≠ some name) → shared.CoversFrom setting name 0
  awaited : ∀ name expirySecs ticket, .awaiting name expirySecs ticket ∈ shared.calls →
    shared.CoversFrom setting name ticket
  adding : ∀ call ∈ shared.calls, ∀ name, call.adding? = some name →
    name ∈ shared.world.cache.entries ∧ shared.world.cache.document? name = none
  untold : ∀ call ∈ shared.calls, ∀ channels, call.untold? = some channels →
    ∀ name ∈ shared.world.cache.entries, setting.Covers channels name

/-- What leaves the calls and the registered tables, and builds nothing, keeps them covered. -/
theorem IsCovered.of_turn (covered : shared.IsCovered setting) (turn : Turn shared later)
    (calls : later.calls = shared.calls)
    (registered : ∀ name : String,
      name ∈ later.world.cache.entries ↔ name ∈ shared.world.cache.entries)
    (unbuilt : ∀ name, shared.world.cache.document? name = none →
      later.world.cache.document? name = none) : later.IsCovered setting := by
  have untold : ∀ name ∈ shared.world.cache.entries,
      ∀ channels ∈ shared.calls.filterMap CacheCall.untold?, setting.Covers channels name := by
    intro name held channels member
    obtain ⟨call, begun, told⟩ := List.mem_filterMap.mp member
    exact covered.untold call begun channels told name held
  refine ⟨fun name held idle => ?_, fun name expirySecs ticket begun => ?_,
    fun call begun name adds => ?_, fun call begun channels told name held => ?_⟩
  · rw [registered] at held
    rw [calls] at idle
    exact (covered.covered name held idle).turn turn (untold name held)
  · rw [calls] at begun
    have held := (covered.adding _ begun name rfl).1
    exact (covered.awaited name expirySecs ticket begun).turn turn (untold name held)
  · rw [calls] at begun
    obtain ⟨held, none⟩ := covered.adding call begun name adds
    exact ⟨(registered name).mpr held, unbuilt name none⟩
  · rw [calls] at begun
    exact covered.untold call begun channels told name ((registered name).mp held)

private theorem isCovered_of_one {call : CacheCall} (calls : later.calls = [call])
    (covered : ∀ name ∈ later.world.cache.entries, call.adding? ≠ some name →
      later.CoversFrom setting name 0)
    (awaited : ∀ name expirySecs ticket, call = .awaiting name expirySecs ticket →
      later.CoversFrom setting name ticket)
    (adding : ∀ name, call.adding? = some name →
      name ∈ later.world.cache.entries ∧ later.world.cache.document? name = none)
    (untold : ∀ channels, call.untold? = some channels →
      ∀ name ∈ later.world.cache.entries, setting.Covers channels name) :
    later.IsCovered setting := by
  have own : ∀ {other : CacheCall}, other ∈ later.calls → other = call := fun begun => by
    rwa [calls, List.mem_singleton] at begun
  have begun : call ∈ later.calls := by
    rw [calls]
    exact List.mem_cons_self
  exact {
    covered := fun name held apart => covered name held (apart call begun)
    awaited := fun name expirySecs ticket waits => awaited name expirySecs ticket (own waits).symm
    adding := fun other begun => own begun ▸ adding
    untold := fun other begun => own begun ▸ untold }

/-- With no call in progress, or one that has unregistered a table, all registered tables have to be
covered. -/
theorem isCovered_of_settled
    (covered : ∀ name ∈ later.world.cache.entries, later.CoversFrom setting name 0)
    (calls : later.calls = [] ∨
      later.calls = [.retracting (later.world.cache.channels setting)]) : later.IsCovered setting := by
  rcases calls with none | one
  · have absent : ∀ call, call ∉ later.calls := fun call begun => by
      rw [none] at begun
      cases begun
    exact {
      covered := fun name held _ => covered name held
      awaited := fun _ _ _ begun => absurd begun (absent _)
      adding := fun call begun => absurd begun (absent call)
      untold := fun call begun => absurd begun (absent call) }
  · refine isCovered_of_one one (fun name held _ => covered name held)
      (fun _ _ _ same => by cases same) (fun _ adds => by cases adds) fun channels told name held => ?_
    cases told
    exact Cache.covers_channels held

private theorem IsCovered.of_beginAdd (covered : shared.IsCovered setting) {expirySecs : Nat}
    (turn : Turn shared (shared.beginAdd setting name expirySecs))
    (sequential : (shared.beginAdd setting name expirySecs).IsSequential) :
    (shared.beginAdd setting name expirySecs).IsCovered setting := by
  -- No other call is in progress.
  have idle : shared.calls = [] := by
    rw [IsSequential, show (shared.beginAdd setting name expirySecs).calls =
      shared.calls ++ [_] from rfl, List.length_append] at sequential
    exact List.eq_nil_of_length_eq_zero (by simpa using sequential)
  have calls : (shared.beginAdd setting name expirySecs).calls = [.announcing name expirySecs
      ((shared.world.cache.register name shared.world.clock expirySecs).channels setting)] :=
    congrArg (· ++ _) idle
  refine isCovered_of_one calls (fun other held apart => ?_) (fun _ _ _ same => by cases same)
    (fun other adds => ?_) fun channels told other held => ?_
  · have before := (Cache.mem_entries_register.mp held).resolve_left fun same =>
      apart (congrArg some same)
    refine (covered.covered other before ?_).turn turn ?_
    · simp [idle]
    · simp [idle]
  · cases adds
    exact ⟨Cache.mem_entries_register.mpr (Or.inl rfl), Cache.document?_register⟩
  · cases told
    exact Cache.covers_channels held

private theorem IsCovered.of_beginRemove (covered : shared.IsCovered setting)
    (turn : Turn shared (shared.beginRemove setting name))
    (sequential : (shared.beginRemove setting name).IsSequential) :
    (shared.beginRemove setting name).IsCovered setting := by
  rcases beginRemove_cases setting shared name with same | same
  · rwa [same]
  · have idle : shared.calls = [] := by
      rw [IsSequential, same, List.length_append] at sequential
      exact List.eq_nil_of_length_eq_zero (by simpa using sequential)
    rw [same] at turn ⊢
    refine isCovered_of_settled (fun other held => ?_) (Or.inr (congrArg (· ++ _) idle))
    have before := (Cache.mem_entries_unregister.mp held).2
    refine (covered.covered other before ?_).turn turn ?_
    · simp [idle]
    · simp [idle]

private theorem IsCovered.of_tellAdd (wired : shared.IsWired) (covered : shared.IsCovered setting)
    (sequential : shared.IsSequential) {expirySecs : Nat} {channels : List String}
    (begun : .announcing name expirySecs channels ∈ shared.calls)
    (turn : Turn shared (shared.tellAdd name expirySecs channels)) :
    (shared.tellAdd name expirySecs channels).IsCovered setting := by
  have calls : shared.calls = [.announcing name expirySecs channels] :=
    sequential.eq_singleton begun
  have untold := covered.untold _ begun channels rfl
  obtain ⟨held, unbuilt⟩ := covered.adding _ begun name rfl
  have entries : (shared.tellAdd name expirySecs channels).world.cache.entries =
      shared.world.cache.entries := shared.entries_tell channels
  have laterCalls : (shared.tellAdd name expirySecs channels).calls = [.awaiting name expirySecs
      ((shared.tell channels).followed + (shared.tell channels).outstanding)] := by
    unfold tellAdd
    rw [calls, List.erase_cons_head]
    rfl
  refine isCovered_of_one laterCalls (fun other stays apart => ?_) (fun _ _ _ same => ?_)
    (fun _ adds => ?_) fun _ told => by cases told
  · rw [entries] at stays
    refine (covered.covered other stays ?_).turn turn ?_
    · rwa [calls, List.forall_mem_singleton]
    · intro told member
      rw [calls] at member
      cases List.mem_singleton.mp member
      exact untold other stays
  · cases same
    exact coversFrom_told wired (untold name held)
  · cases adds
    rw [Cache.document?, entries]
    exact ⟨held, unbuilt⟩

private theorem IsCovered.of_tellRemove (covered : shared.IsCovered setting)
    (sequential : shared.IsSequential) {channels : List String}
    (begun : .retracting channels ∈ shared.calls) (turn : Turn shared (shared.tellRemove channels)) :
    (shared.tellRemove channels).IsCovered setting := by
  have calls : shared.calls = [.retracting channels] := sequential.eq_singleton begun
  refine isCovered_of_settled (fun other held => ?_) (Or.inl ?_)
  · have before : other ∈ shared.world.cache.entries :=
      shared.entries_tell channels ▸ held
    refine (covered.covered other before ?_).turn turn ?_
    · rw [calls, List.forall_mem_singleton]
      exact fun none => by cases none
    · intro told member
      rw [calls] at member
      cases List.mem_singleton.mp member
      exact covered.untold _ begun channels rfl other before
  · change shared.calls.erase (.retracting channels) = []
    rw [calls, List.erase_cons_head]

private theorem IsCovered.of_finishAdd (wired : shared.IsWired) (covered : shared.IsCovered setting)
    (sequential : shared.IsSequential) {expirySecs ticket : Nat}
    (begun : .awaiting name expirySecs ticket ∈ shared.calls)
    (followed : ticket ≤ shared.followed ∨ shared.world.cache.listener.running = false)
    (turn : Turn shared (shared.finishAdd setting name expirySecs ticket)) :
    (shared.finishAdd setting name expirySecs ticket).IsCovered setting := by
  have calls : shared.calls = [.awaiting name expirySecs ticket] := sequential.eq_singleton begun
  have erased : shared.calls.erase (.awaiting name expirySecs ticket) = [] := by
    rw [calls, List.erase_cons_head]
  have reached : shared.CoversFrom setting name 0 := by
    rcases followed with reached | halted
    · obtain ⟨subscribed, waiting⟩ := covered.awaited name expirySecs ticket begun
      rw [show ticket - shared.followed - 1 = 0 - shared.followed - 1 by omega] at waiting
      exact ⟨fun _ => subscribed reached, waiting⟩
    · obtain ⟨gone, empty⟩ := wired.stopped halted
      exact coversFrom_of_idle gone empty 0
  have others : ∀ other ∈ shared.world.cache.entries, shared.CoversFrom setting other 0 := by
    intro other held
    by_cases own : name = other
    · rwa [← own]
    · refine covered.covered other held ?_
      rw [calls, List.forall_mem_singleton]
      exact fun same => own (Option.some.inj same)
  have untold : ∀ other, ∀ channels ∈ shared.calls.filterMap CacheCall.untold?,
      setting.Covers channels other := by
    intro other channels member
    rw [calls] at member
    cases member
  obtain ⟨middle, same, ⟨document, finished⟩ | finished⟩ :=
    finishAdd_cases setting shared name expirySecs ticket
  · rw [finished] at turn ⊢
    refine isCovered_of_settled (fun other held => ?_) (Or.inl erased)
    rcases Cache.mem_entries_putBuilt.mp held with rfl | before
    · exact reached.turn turn (untold name)
    · exact (others other ((same.registered other).mp before)).turn turn (untold other)
  · rw [finished] at turn ⊢
    refine isCovered_of_settled (fun other held => ?_) (Or.inr (congrArg (· ++ _) erased))
    have before := (Cache.mem_entries_unregister.mp held).2
    exact (others other ((same.registered other).mp before)).turn turn (untold other)

private theorem IsCovered.step (wired : shared.IsWired) (covered : shared.IsCovered setting)
    (sequential : shared.IsSequential) (next : Step setting shared later)
    (stillSequential : later.IsSequential) : later.IsCovered setting := by
  have turn := next.turn wired
  cases next with
  | write write => exact covered.of_turn turn rfl (fun _ => Iff.rfl) fun _ none => none
  | setAvailable available =>
      exact covered.of_turn turn rfl (fun _ => Iff.rfl) fun _ none => none
  | beginAdd name expirySecs known => exact covered.of_beginAdd turn stillSequential
  | beginRemove name => exact covered.of_beginRemove turn stillSequential
  | tellAdd name expirySecs channels begun => exact covered.of_tellAdd wired sequential begun turn
  | tellRemove channels begun => exact covered.of_tellRemove sequential begun turn
  | finishAdd name expirySecs ticket begun followed =>
      exact covered.of_finishAdd wired sequential begun followed turn
  | invalidate name =>
      have same := Cache.sameWatch_invalidate name shared.world
      exact covered.of_turn turn rfl same.registered same.unbuilt
  | stop =>
      rw [post_eq] at turn ⊢
      exact covered.of_turn turn rfl (fun _ => Iff.rfl) fun _ none => none
  | takeCommand idle =>
      have kept : shared.takeCommand.calls = shared.calls ∧
          shared.takeCommand.world.cache.entries = shared.world.cache.entries := by
        rcases shared.takeCommand_cases with ⟨_, same⟩ | ⟨_, _, _, _, _, _, ⟨_, _, same⟩ | ⟨_, same⟩⟩
        all_goals
          rw [same]
          exact ⟨rfl, rfl⟩
      refine covered.of_turn turn kept.1 (fun name => by rw [kept.2]) fun name none => ?_
      rw [Cache.document?, kept.2]
      exact none
  | renew channels amid =>
      have kept : (shared.renew channels).world.cache.entries = shared.world.cache.entries := by
        unfold SharedCache.renew
        rcases Listener.run_subscribe channels shared.world with ⟨same, _⟩ | ⟨_, _, same⟩
        all_goals rw [same]
      refine covered.of_turn turn rfl (fun name => by rw [kept]) fun name none => ?_
      rw [Cache.document?, kept]
      exact none
  | handle idle =>
      have same := Listener.sameWatch_handleNext setting shared.world
      refine covered.of_turn turn rfl (fun name => ?_) fun name none => same.unbuilt name ?_
      · rw [← World.received_cache shared.world]
        exact same.registered name
      · rw [World.received_cache]
        exact none

private theorem isCovered_start (setting : Setting) (world : World) : (start world).IsCovered setting :=
  isCovered_of_settled (fun _ held => absurd held Std.ExtTreeMap.not_mem_empty) (Or.inl rfl)

private theorem IsCovered.forgetDropped (covered : shared.IsCovered setting) :
    shared.forgetDropped.IsCovered setting :=
  ⟨covered.covered, covered.awaited, covered.adding, covered.untold⟩

namespace Reaches

variable {Rule : SharedCache → Prop} {world : World} {last : SharedCache}

/-- Whatever runs, the listener is kept on the registered tables, as long as calls follow one another. -/
theorem isCovered (run : Reaches setting Rule world last) (numbered : world.store.IsNumbered)
    (sequential : ∀ shared, Rule shared → shared.IsSequential) : last.IsCovered setting := by
  induction run with
  | start => exact isCovered_start setting world
  | step before next rule ih =>
      obtain ⟨same, kept, rfl⟩ := before.exists_rule
      exact (ih.step (before.isWired numbered) (sequential same kept) next
        (sequential _ rule)).forgetDropped

end Reaches

end SharedCache

end ConfigVetting
