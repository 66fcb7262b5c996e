import ConfigVetting.Cache.Documents
import ConfigVetting.Proofs.Steps
import ConfigVetting.Proofs.World.Requests

/-! # Calls that only read

What vetting may do to the world before anything is accepted: it counts uses of the store and of the
cache, writes to the journal, and builds documents of registered tables that are not there or
expired. It changes no stored row and folds nothing into a cached table
(`ConfigVetting.World.OnlyRead`).
-/

namespace ConfigVetting

/-- Whether a document is that of a table as stored rows hold it. -/
def IsBuilt (setting : Setting) (rows : ByName Fields) (name : String) (document : Document) : Prop :=
  ∃ table, setting.schema.table? name = some table ∧
    Document.ofRows setting.schema ((∅ : TableRows).insert name (Store.tableRows table rows)) =
      .ok document

/-- Whether an entry of a cache is another one with its document built anew, which was not there or
expired. -/
def CacheEntry.IsRebuilt (setting : Setting) (world : World) (name : String)
    (before after : CacheEntry) : Prop :=
  (before.isExpired world.clock ∨ before.document = none) ∧
    ∃ document, IsBuilt setting world.store.rows name document ∧
      after = { document := some document, createdAt := world.clock, expirySecs := before.expirySecs }

/-- Whether a world differs from an earlier one by no more than reading from it does. -/
structure World.OnlyRead (setting : Setting) (before after : World) : Prop where
  rows : after.store.rows = before.store.rows
  available : after.store.available = before.store.available
  clock : after.clock = before.clock
  folds : after.cache.stats.folds = before.cache.stats.folds
  entries : ∀ name, after.cache.entries[name]? = before.cache.entries[name]? ∨
    ∃ earlier later : CacheEntry, before.cache.entries[name]? = some earlier ∧
      after.cache.entries[name]? = some later ∧ earlier.IsRebuilt setting before name later

namespace World.OnlyRead

variable {setting : Setting} {before middle after : World}

theorem refl (world : World) : world.OnlyRead setting world :=
  ⟨rfl, rfl, rfl, rfl, fun _ => Or.inl rfl⟩

/-- A world that differs only in what reading leaves alone or what nothing depends on. -/
theorem of_eq (rows : after.store.rows = before.store.rows)
    (available : after.store.available = before.store.available)
    (clock : after.clock = before.clock)
    (folds : after.cache.stats.folds = before.cache.stats.folds)
    (entries : after.cache.entries = before.cache.entries) : before.OnlyRead setting after :=
  ⟨rows, available, clock, folds, fun name => Or.inl (by rw [entries])⟩

/-- Reading twice is reading. -/
theorem trans (first : before.OnlyRead setting middle) (second : middle.OnlyRead setting after) :
    before.OnlyRead setting after where
  rows := second.rows.trans first.rows
  available := second.available.trans first.available
  clock := second.clock.trans first.clock
  folds := second.folds.trans first.folds
  entries name := by
    rcases first.entries name with same | ⟨earlier, between, stored, rebuilt, outdated, built⟩
    · rcases second.entries name with kept | ⟨earlier, later, stored, rebuilt, outdated, built⟩
      · exact Or.inl (kept.trans same)
      · right
        rw [first.rows, first.clock] at built
        exact ⟨earlier, later, same ▸ stored, rebuilt, first.clock ▸ outdated, built⟩
    · right
      rcases second.entries name with kept | ⟨again, later, restored, rebuiltAgain, _, builtAgain⟩
      · exact ⟨earlier, between, stored, kept.trans rebuilt, outdated, built⟩
      · obtain ⟨document, _, rfl⟩ := built
        cases rebuilt.symm.trans restored
        rw [first.rows, first.clock] at builtAgain
        exact ⟨earlier, later, stored, rebuiltAgain, outdated, builtAgain⟩

/-- A document that is there and not expired is not built anew. -/
theorem document_eq (read : before.OnlyRead setting after) {name : String} {entry : CacheEntry}
    (registered : before.cache.entries[name]? = some entry)
    (current : entry.isExpired before.clock = false) (built : entry.document ≠ none) :
    after.cache.entries[name]? = some entry := by
  rcases read.entries name with same | ⟨earlier, later, stored, _, outdated, _⟩
  · exact same.trans registered
  · cases registered.symm.trans stored
    rcases outdated with expired | absent
    · rw [current] at expired
      cases expired
    · exact absurd absent built

end World.OnlyRead

namespace WorldM

variable {setting : Setting} {α β : Type}

/-- Whether a call only reads, be it accepted or rejected. -/
def IsReading (setting : Setting) (call : WorldM α) : Prop :=
  ∀ world : World, world.OnlyRead setting (call.outcome world).2

namespace IsReading

/-- What a call that only reads leaves of the world. -/
theorem onlyRead {call : WorldM α} (isReading : call.IsReading setting) {world later : World}
    {answer : Except Rejection α} (given : call.outcome world = (answer, later)) :
    world.OnlyRead setting later := by
  have read := isReading world
  rwa [given] at read

theorem pure (answer : α) : (pure answer : WorldM α).IsReading setting :=
  fun world => World.OnlyRead.refl world

theorem throw (rejection : Rejection) : (throw rejection : WorldM α).IsReading setting :=
  fun world => World.OnlyRead.refl world

theorem except (step : Except Rejection α) : (liftM step : WorldM α).IsReading setting := by
  intro world
  rw [outcome_except]
  exact World.OnlyRead.refl world

theorem bind {call : WorldM α} {next : α → WorldM β} (first : call.IsReading setting)
    (rest : ∀ answer, (next answer).IsReading setting) : (call >>= next).IsReading setting := by
  intro world
  have firstRead := first world
  rw [outcome_bind]
  rcases split : call.outcome world with ⟨answer, later⟩
  rw [split] at firstRead
  cases answer with
  | error rejection => exact firstRead
  | ok answer => exact firstRead.trans (rest answer later)

theorem ite {condition : Prop} [Decidable condition] {call other : WorldM α}
    (whenTrue : call.IsReading setting) (whenFalse : other.IsReading setting) :
    (if condition then call else other).IsReading setting := by
  by_cases holds : condition
  · rwa [if_pos holds]
  · rwa [if_neg holds]

theorem foldlM {next : β → α → WorldM β} (each : ∀ state item, (next state item).IsReading setting)
    (items : List α) (state : β) : (items.foldlM next state).IsReading setting := by
  induction items generalizing state with
  | nil => exact pure state
  | cons item items ih =>
      rw [List.foldlM_cons]
      exact (each state item).bind ih

/-- The answers of an accepted loop that only reads, each of them given in a world that differs from
the first by reading alone. -/
theorem forall₂_of_mapM {next : α → WorldM β} (each : ∀ item, (next item).IsReading setting)
    {items : List α} {answers : List β} {world later : World}
    (accepted : (items.mapM next).outcome world = (.ok answers, later)) :
    List.Forall₂ (fun item answer => ∃ before after, world.OnlyRead setting before ∧
      (next item).outcome before = (.ok answer, after)) items answers := by
  induction items generalizing answers world with
  | nil =>
      cases accepted
      exact .nil
  | cons item items ih =>
      rw [List.mapM_cons] at accepted
      obtain ⟨first, middle, head, rest⟩ := outcome_bind_eq_ok_iff.mp accepted
      obtain ⟨others, last, tail, answered⟩ := outcome_bind_eq_ok_iff.mp rest
      cases answered
      have headRead := each item world
      rw [head] at headRead
      refine .cons ⟨world, middle, World.OnlyRead.refl world, head⟩ ?_
      refine (ih tail).imp fun _ _ => ?_
      rintro ⟨before, after, read, given⟩
      exact ⟨before, after, headRead.trans read, given⟩

/-- What holds of the state of a loop that only reads and is kept by each of its steps, in whatever world
that differs by reading alone, holds after it. -/
theorem foldlM_invariant {next : β → α → WorldM β}
    (each : ∀ state item, (next state item).IsReading setting) (Holds : β → Prop) {world : World}
    (keeps : ∀ state item before answer after, world.OnlyRead setting before → Holds state →
      (next state item).outcome before = (.ok answer, after) → Holds answer)
    {items : List α} {first last : β} {start later : World} (read : world.OnlyRead setting start)
    (holds : Holds first) (accepted : (items.foldlM next first).outcome start = (.ok last, later)) :
    Holds last := by
  induction items generalizing first start with
  | nil =>
      cases accepted
      exact holds
  | cons item items ih =>
      rw [List.foldlM_cons] at accepted
      obtain ⟨answer, middle, stepped, rest⟩ := outcome_bind_eq_ok_iff.mp accepted
      exact ih (read.trans ((each first item).onlyRead stepped))
        (keeps first item start answer middle read holds stepped) rest

/-- The answers that an accepted loop combines with its state, each of them given in a world that differs
from the first by reading alone. -/
theorem forall₂_of_foldlM {γ : Type} {call : α → WorldM γ} (each : ∀ item, (call item).IsReading setting)
    (combine : β → γ → β) {items : List α} {first last : β} {world later : World}
    (accepted : (items.foldlM (fun state item => do return combine state (← call item)) first).outcome
      world = (.ok last, later)) :
    ∃ answers, List.Forall₂ (fun item answer => ∃ before after, world.OnlyRead setting before ∧
      (call item).outcome before = (.ok answer, after)) items answers ∧
        last = answers.foldl combine first := by
  induction items generalizing first world with
  | nil =>
      cases accepted
      exact ⟨[], .nil, rfl⟩
  | cons item items ih =>
      rw [List.foldlM_cons] at accepted
      obtain ⟨state, middle, stepped, rest⟩ := outcome_bind_eq_ok_iff.mp accepted
      obtain ⟨answer, after, given, combined⟩ := outcome_bind_eq_ok_iff.mp stepped
      cases combined
      have read : world.OnlyRead setting middle := (each item).onlyRead given
      obtain ⟨answers, others, rfl⟩ := ih rest
      refine ⟨answer :: answers, .cons ⟨world, middle, World.OnlyRead.refl world, given⟩ ?_, rfl⟩
      refine others.imp fun _ _ => ?_
      rintro ⟨before, next, later, answered⟩
      exact ⟨before, next, read.trans later, answered⟩

theorem discard {call : WorldM α} (isReading : call.IsReading setting) :
    (discard call : WorldM Unit).IsReading setting :=
  isReading.bind fun _ => pure ()

/-- Writing to the journal. -/
theorem note (kind : EventKind) (fields : List (String × String)) :
    IsReading setting (liftM (World.note kind fields) : WorldM Unit) :=
  fun _ => World.OnlyRead.of_eq rfl rfl rfl rfl rfl

/-- Asking the store a request that only reads. -/
theorem askStore {request : StoreM α} {answer : ByName Fields → α} (isRead : request.IsRead answer) :
    (World.askStore request).IsReading setting := by
  intro world
  obtain ⟨⟨stats, changed⟩, _⟩ := isRead world.store
  rw [World.outcome_askStore_snd, changed]
  exact World.OnlyRead.of_eq rfl rfl rfl rfl rfl

end IsReading

end WorldM

end ConfigVetting
