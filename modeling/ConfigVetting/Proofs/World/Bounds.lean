import ConfigVetting.Session
import ConfigVetting.Proofs.Confined
import ConfigVetting.Proofs.World.Requests

/-! # Bounds for calls

What is kept by the requests to the store that only look something up, by entries in the journal and by reads
from the cache is a bound for calls (`ConfigVetting.WorldM.ReadBounds`): it is kept by every call that is put
together from these. Translating keys and rows is not rejected for data of an unexpected shape.
-/

namespace ConfigVetting

open Stateful

/-! ## Requests that look something up -/

/-- Whether a fault is that the store could not serve the request. -/
def StoreFault.IsUnavailable (fault : StoreFault) : Prop :=
  ∃ reason, fault = .unavailable reason

/-- Whether a store differs from another one in the counts of its use alone. -/
def Store.DiffersInCounts (before after : Store) : Prop :=
  ∃ stats, after = { before with stats }

instance : Std.Refl Store.DiffersInCounts :=
  ⟨fun store => ⟨store.stats, rfl⟩⟩

instance : IsTrans Store Store.DiffersInCounts where
  trans _ _ _ := by
    rintro ⟨_, rfl⟩ ⟨stats, rfl⟩
    exact ⟨stats, rfl⟩

namespace StoreM

variable {α : Type}

/-- Whether a request changes nothing but the counts of its use, and is served by an available store. -/
abbrev LooksUp (request : StoreM α) : Prop :=
  IsConfined StoreFault.IsUnavailable Store.DiffersInCounts request

/-- Counting the use of the store, if it is available, and answering from the store. -/
theorem looksUp_counted (count : StoreStats → StoreStats) (answer : Store → α) : LooksUp (do
    Store.checkAvailable
    modify fun store => { store with stats := count store.stats }
    return answer (← get) : StoreM α) := by
  refine IsConfined.bind (IsConfined.get.bind fun store _ => ?_) fun _ _ =>
    (IsConfined.modify fun store => ⟨count store.stats, rfl⟩).bind fun _ _ =>
      IsConfined.get.bind fun _ _ => .pure _
  exact IsConfined.ite (fun _ => .throw ⟨_, rfl⟩) fun _ => .pure _

end StoreM

namespace Store

open StoreM

theorem looksUp_keys (start : String) : (keys start).LooksUp :=
  looksUp_counted (fun stats => { stats with keyScans := stats.keyScans + 1 })
    (fun store => keysFrom start store.rows.keys)

theorem looksUp_getRows (keys : List String) : (getRows keys).LooksUp :=
  looksUp_counted (fun stats => { stats with
    batches := stats.batches + 1
    rowsFetched := stats.rowsFetched + keys.length }) (fun store => keys.map store.get?)

theorem looksUp_holds (key : String) : (holds key).LooksUp :=
  looksUp_counted (fun stats => { stats with existsChecks := stats.existsChecks + 1 })
    (fun store => decide (key ∈ store.rows))

theorem looksUp_fetch (keys : List String) (batchSize : Nat) : (fetch keys batchSize).LooksUp :=
  (IsConfined.mapM looksUp_getRows _).bind fun _ _ => .pure _

private theorem looksUp_fetchTable (table : TableSchema) (batchSize : Nat) :
    (fetchTable table batchSize).LooksUp :=
  (looksUp_keys _).bind fun _ _ => (looksUp_fetch _ _).bind fun _ _ => .pure _

end Store

/-! ## Rejections that are expected -/

/-- Whether a rejection is not for data of an unexpected shape. -/
abbrev Rejection.IsExpected (rejection : Rejection) : Prop :=
  rejection.code ≠ .internal

/-- Whether a step is never rejected for data of an unexpected shape. -/
abbrev MeetsExpected {α : Type} (step : Except Rejection α) : Prop :=
  Except.FailsOnly Rejection.IsExpected step

/-- A table that is not known is an expected rejection. -/
theorem Schema.meetsExpected_knownTable (schema : Schema) (name : String) :
    MeetsExpected (schema.knownTable name) := by
  unfold Schema.knownTable
  cases schema.table? name with
  | none => exact .error nofun
  | some table => exact .ok table

namespace TableSchema

private theorem meetsExpected_components (table : TableSchema) (rowKey : String) :
    MeetsExpected (table.components rowKey) := by
  unfold TableSchema.components
  cases table.splitKey rowKey with
  | none => exact .error nofun
  | some components => exact .ok components

private theorem meetsExpected_expandKey (table : TableSchema) (rowKey : String) :
    MeetsExpected (table.expandKey rowKey) := by
  refine (meetsExpected_components table rowKey).bind fun components _ => .bind ?_ fun _ _ => .ok _
  refine .mapM fun pair _ => ?_
  simp only
  split
  · exact .error nofun
  · exact .ok _

private theorem meetsExpected_rowsNodes (table : TableSchema) (rows : KeyedRows) :
    MeetsExpected (table.rowsNodes rows) :=
  .map (.mapM fun row _ => (meetsExpected_expandKey table row.1).map _) _

end TableSchema

/-- An edit is not rejected for data of an unexpected shape when its key is split. -/
theorem Schema.meetsExpected_keyed (schema : Schema) (edit : Edit) : MeetsExpected (schema.keyed edit) := by
  unfold Schema.keyed
  cases schema.splitStoreKey edit.key with
  | none => exact .error nofun
  | some found =>
      exact ((found.1.meetsExpected_expandKey found.2).map _).bind fun _ _ =>
        (found.1.meetsExpected_components found.2).bind fun _ _ => .ok _

private theorem Forest.meetsExpected_ofRows (schema : Schema) (rows : TableRows) :
    MeetsExpected (Forest.ofRows schema rows) :=
  .foldlM (fun _ entry _ => (schema.meetsExpected_knownTable entry.1).bind fun table _ =>
    (table.meetsExpected_rowsNodes entry.2).bind fun _ _ => .ok _) _

theorem Document.meetsExpected_ofRows (schema : Schema) (rows : TableRows) :
    MeetsExpected (Document.ofRows schema rows) :=
  (Forest.meetsExpected_ofRows schema rows).map _

/-! ## Changes of documents -/

/-- Any document may become any other one. -/
def Document.MayBecome (_ _ : Document) : Prop := True

instance : Std.Refl Document.MayBecome := ⟨fun _ => trivial⟩

instance : IsTrans Document Document.MayBecome := ⟨fun _ _ _ _ _ => trivial⟩

/-- Whether a change of a document is never rejected for data of an unexpected shape. -/
abbrev DocumentM.MeetsExpected (change : DocumentM Unit) : Prop :=
  IsConfined Rejection.IsExpected Document.MayBecome change

namespace Document

variable (schema : Schema) (table : TableSchema) (rowKey : String)

private theorem meetsExpected_removeRow : (removeRow table rowKey).MeetsExpected :=
  (IsConfined.except (table.meetsExpected_expandKey rowKey)).bind fun _ _ =>
    .forM fun _ _ => .modify fun _ => trivial

private theorem meetsExpected_putRow (fields : Fields) : (putRow schema table rowKey fields).MeetsExpected :=
  (IsConfined.except (Forest.meetsExpected_ofRows schema _)).bind fun _ _ => .modify fun _ => trivial

private theorem meetsExpected_patchInstance (patch : Patch) (key : String) :
    (patchInstance schema table patch key).MeetsExpected := by
  refine IsConfined.get.bind fun document _ => ?_
  cases document.roots.findInstance? table.name key with
  | none => exact .pure _
  | some node =>
      exact (IsConfined.modify fun _ => trivial).bind fun _ _ => meetsExpected_putRow schema table key _

/-- Laying a state over a row is not rejected for data of an unexpected shape. -/
theorem meetsExpected_overlayRow (state : RowState) :
    (overlayRow schema table rowKey state).MeetsExpected := by
  cases state with
  | deleted => exact meetsExpected_removeRow table rowKey
  | present fields =>
      exact (meetsExpected_removeRow table rowKey).bind fun _ _ =>
        meetsExpected_putRow schema table rowKey fields
  | overlay patch =>
      exact (IsConfined.except (table.meetsExpected_expandKey rowKey)).bind fun _ _ =>
        .forM fun components _ => meetsExpected_patchInstance schema table patch _

/-- A document changed as a whole is rejected only where the change is. -/
theorem meetsExpected_changed (document : Document) {change : DocumentM Unit}
    (meets : change.MeetsExpected) : MeetsExpected (document.changed change) := by
  have fails := (meets document).1
  unfold Stateful.outcome at fails
  unfold changed
  generalize StateT.run (m := Id) (ExceptT.run change) document = outcome at fails ⊢
  obtain ⟨answer, later⟩ := outcome
  cases answer with
  | ok _ => exact .ok later
  | error rejection => exact .error (fails rejection rfl)

end Document

/-! ## Bounds -/

namespace WorldM

variable {α : Type}

/-- Bounds for calls that are rejected for all that is expected, count uses of the store and write to the
journal. -/
structure Bounds (allowed : Rejection → Prop) (leads : World → World → Prop) : Prop where
  expected : ∀ rejection, rejection.IsExpected → allowed rejection
  counts : ∀ (world : World) stats, leads world { world with store.stats := stats }
  notes : ∀ (world : World) journal, leads world { world with journal }

/-- Bounds for calls that read from the cache as well. -/
structure ReadBounds (setting : Setting) (allowed : Rejection → Prop) (leads : World → World → Prop) : Prop
    extends Bounds allowed leads where
  reads : ∀ name, IsConfined allowed leads (Cache.read setting name)

namespace Bounds

variable {allowed : Rejection → Prop} {leads : World → World → Prop}

/-- A step outside of the world that is not rejected for data of an unexpected shape. -/
theorem except [Std.Refl leads] (bounds : Bounds allowed leads) {step : Except Rejection α}
    (meets : MeetsExpected step) : IsConfined allowed leads (liftM step : WorldM α) :=
  .except (meets.mono bounds.expected)

theorem throw [Std.Refl leads] (bounds : Bounds allowed leads) {rejection : Rejection}
    (expected : rejection.IsExpected) : IsConfined allowed leads (throw rejection : WorldM α) :=
  .throw (bounds.expected rejection expected)

theorem note (bounds : Bounds allowed leads) (kind : EventKind) (fields : List (String × String)) :
    IsConfined allowed leads (liftM (World.note kind fields) : WorldM Unit) :=
  .state fun world => bounds.notes world _

/-- A request that looks something up. -/
theorem askStore (bounds : Bounds allowed leads) {request : StoreM α} (looksUp : request.LooksUp) :
    IsConfined allowed leads (World.askStore request) := by
  intro world
  change Except.FailsOnly allowed ((World.askStore request).outcome world).1 ∧
    leads world ((World.askStore request).outcome world).2
  obtain ⟨fails, stats, changed⟩ := looksUp world.store
  change Except.FailsOnly _ (request.outcome world.store).1 at fails
  change (request.outcome world.store).2 = _ at changed
  rw [World.outcome_askStore]
  rcases split : request.outcome world.store with ⟨answer, store⟩
  rw [split] at fails changed
  subst changed
  have led := bounds.counts world stats
  cases answer with
  | ok answer => exact ⟨.ok answer, led⟩
  | error fault =>
      obtain ⟨reason, rfl⟩ := fails fault rfl
      exact ⟨.error (bounds.expected _ nofun), led⟩

/-- Building the document of a table. -/
theorem build [Std.Refl leads] [IsTrans World leads] (bounds : Bounds allowed leads) (setting : Setting)
    (name : String) : IsConfined allowed leads (Cache.build setting name) :=
  (bounds.except (setting.schema.meetsExpected_knownTable name)).bind fun table _ =>
    (bounds.askStore (Store.looksUp_fetchTable table _)).bind fun _ _ =>
      (bounds.except (Document.meetsExpected_ofRows _ _)).bind fun _ _ =>
        (bounds.note _ _).bind fun _ _ => .pure _

end Bounds

end WorldM

end ConfigVetting
