import ConfigVetting.Proofs.Document.Counting
import ConfigVetting.Proofs.Session.Commitment

/-! # What cached tables hold

A cached table is built from the stored rows, and each accepted batch is laid over it. So it holds no
more list instances than the rows have that are stored or were created since
(`ConfigVetting.Group.isCovered_of_commitAll`).
-/

namespace ConfigVetting

/-- Whether a world has the stored rows of an earlier one, and registers no other tables for the
cache. -/
structure World.Keeps (before after : World) : Prop where
  rows : after.store.rows = before.store.rows
  registered : ∀ name, name ∈ after.cache.entries → name ∈ before.cache.entries

namespace World.Keeps

theorem refl (world : World) : world.Keeps world :=
  ⟨rfl, fun _ member => member⟩

theorem trans {before middle after : World} (first : before.Keeps middle)
    (second : middle.Keeps after) : before.Keeps after :=
  ⟨second.rows.trans first.rows, fun name member => first.registered name
    (second.registered name member)⟩

/-- Reading keeps the stored rows, and registers no table. -/
theorem of_onlyRead {setting : Setting} {before after : World}
    (read : before.OnlyRead setting after) : before.Keeps after where
  rows := read.rows
  registered name member := by
    rw [Std.ExtTreeMap.mem_iff_isSome_getElem?] at member ⊢
    rcases read.entries name with same | ⟨earlier, _, registered, _⟩
    · rwa [← same]
    · rw [registered]
      rfl

end World.Keeps

/-- Whether every cached document is covered by the live rows of its table. -/
def Cache.IsCovered (schema : Schema) (live : TableSchema → String → Prop) (cache : Cache) : Prop :=
  ∀ table, schema.table? table.name = some table → ∀ document,
    cache.document? table.name = some document → document.IsCovered table (live table)

/-- Whether every cached document is as some stored rows make it. -/
def Cache.IsAsStored (setting : Setting) (rows : ByName Fields) (cache : Cache) : Prop :=
  ∀ name document, cache.document? name = some document → IsBuilt setting rows name document

/-- Cached documents that are as the store makes them are covered by the stored rows. -/
theorem Cache.IsAsStored.isCovered {setting : Setting} {rows : ByName Fields} {cache : Cache}
    (asStored : cache.IsAsStored setting rows) :
    cache.IsCovered setting.schema fun table rowKey => (rows[table.storeKey rowKey]?).isSome :=
  fun table known document cached =>
    Document.isCovered_of_isBuilt known (asStored table.name document cached)

namespace Cache.IsCovered

variable {setting : Setting} {live more : TableSchema → String → Prop}

/-- A cache that covers some rows covers more of them. -/
theorem mono {cache : Cache} (covered : cache.IsCovered setting.schema live)
    (allowed : ∀ table rowKey, live table rowKey → more table rowKey) :
    cache.IsCovered setting.schema more :=
  fun table known document cached => (covered table known document cached).mono
    (allowed table)

/-- Reading keeps cached documents covered, for what it builds are the stored rows. -/
theorem onlyRead {world later : World} (read : world.OnlyRead setting later)
    (covered : world.cache.IsCovered setting.schema live)
    (stored : ∀ table rowKey, (world.store.rows[table.storeKey rowKey]?).isSome →
      live table rowKey) : later.cache.IsCovered setting.schema live := by
  intro table known document cached
  obtain ⟨entry, registered, own⟩ := Option.bind_eq_some_iff.mp cached
  rcases read.entries table.name with same | ⟨_, after, _, rebuilt, _, made, isBuilt, rfl⟩
  · refine covered table known document ?_
    rw [Cache.document?, ← same, registered]
    exact own
  · cases registered.symm.trans rebuilt
    cases own
    exact (Document.isCovered_of_isBuilt known isBuilt).mono (stored table)

end Cache.IsCovered

/-- Laying the rows of an operation over a document keeps it covered, if the rows are live should they be
created. -/
theorem Document.isCovered_of_overlayEntries {schema : Schema} {table : TableSchema}
    (known : schema.table? table.name = some table) (sound : table.IsSound) {operation : Operation}
    {live : String → Prop} {rows : List (String × Fields)}
    (created : operation = .create → ∀ row ∈ rows, live row.1) {before after : Document}
    (covered : before.IsCovered table live)
    (laid : DocumentM.outcome (rows.forM fun (rowKey, fields) =>
      Document.overlayRow schema table rowKey (.ofEdit operation fields)) before = (.ok (), after)) :
    after.IsCovered table live := by
  refine DocumentM.forM_invariant (Document.IsCovered table live)
    (fun row member _ _ between stepped => ?_) covered laid
  refine (Document.isCovered_of_overlayRow known sound between stepped).mono fun rowKey allowed => ?_
  cases operation with
  | create =>
      rcases allowed with earlier | rfl
      · exact earlier
      · exact created rfl row member
  | update => exact allowed
  | none => exact allowed
  | delete =>
      cases removes : row.2.areNone with
      | true =>
          simp only [RowState.ofEdit, removes, ↓reduceIte] at allowed
          exact allowed.1
      | false =>
          simp only [RowState.ofEdit, removes, Bool.false_eq_true, ↓reduceIte] at allowed
          exact allowed

namespace Cache

open WorldM

variable {setting : Setting} {live : TableSchema → String → Prop}

/-- Folding rows into the document of a table keeps the cached documents covered, if the rows are
live should they be created. -/
theorem isCovered_of_foldTable (sound : setting.schema.IsSound) {operation : Operation}
    {name : String} {keyed : KeyedRows}
    (created : operation = .create → ∀ table, setting.schema.table? name = some table →
      ∀ rowKey fields, keyed[rowKey]? = some fields → live table rowKey)
    {world later : World}
    (folded : (foldTable setting operation name keyed).outcome world = (.ok (), later)) :
    world.Keeps later ∧
      (world.cache.IsCovered setting.schema live → later.cache.IsCovered setting.schema live) := by
  rcases outcome_foldTable_eq_ok_iff.mp folded with ⟨_, rfl⟩ |
    ⟨document, table, laid, cached, known, looped, rfl⟩
  · exact ⟨World.Keeps.refl world, id⟩
  · obtain ⟨named, tableSound⟩ := sound name table known
    subst named
    obtain ⟨documents, _⟩ := putDocument_spec cached laid.compactIfSparse
    refine ⟨⟨rfl, fun _ => Std.ExtTreeMap.mem_modify.mp⟩, fun covered other otherKnown after held => ?_⟩
    have heldAfter := (documents other.name).symm.trans held
    by_cases same : table.name = other.name
    · cases Schema.eq_of_name_eq known otherKnown same
      rw [if_pos rfl] at heldAfter
      cases heldAfter
      have laidCovered : laid.IsCovered table (live table) :=
        Document.isCovered_of_overlayEntries known tableSound (fun creates entry member =>
          created creates table known _ _ (Std.ExtTreeMap.mem_toList_iff_getElem?_eq_some.mp member))
          (covered table known document cached) looped
      exact laidCovered.compactIfSparse
    · rw [if_neg same] at heldAfter
      exact covered other otherKnown after heldAfter

/-- Folding rows into the documents of their tables keeps the cached documents covered, if the rows are
live should they be created. -/
theorem isCovered_of_fold (sound : setting.schema.IsSound) {operation : Operation}
    {rows : TableRows}
    (created : operation = .create → ∀ table, setting.schema.table? table.name = some table →
      ∀ rowKey fields, (rows.keyed table.name)[rowKey]? = some fields → live table rowKey)
    {world later : World}
    (folded : (fold setting rows operation).outcome world = (.ok (), later)) :
    world.Keeps later ∧
      (world.cache.IsCovered setting.schema live → later.cache.IsCovered setting.schema live) := by
  by_cases idle : operation = .none
  · unfold fold at folded
    rw [if_pos idle] at folded
    cases folded
    exact ⟨World.Keeps.refl world, id⟩
  · rw [fold_eq _ idle] at folded
    refine forM_invariant (fun between => world.Keeps between ∧
      (world.cache.IsCovered setting.schema live → between.cache.IsCovered setting.schema live))
      (fun entry member before after held stepped => ?_) ⟨World.Keeps.refl world, id⟩ folded
    have ownCreated : operation = .create → ∀ table, setting.schema.table? entry.1 = some table →
        ∀ rowKey fields, entry.2[rowKey]? = some fields → live table rowKey := by
      intro creates table known rowKey fields stored
      have named := (sound entry.1 table known).1
      refine created creates table (named ▸ known) rowKey fields ?_
      rw [TableRows.keyed, named, Std.ExtTreeMap.mem_toList_iff_getElem?_eq_some.mp member]
      exact stored
    obtain ⟨keeps, kept⟩ := isCovered_of_foldTable sound ownCreated stepped
    exact ⟨held.1.trans keeps, kept ∘ held.2⟩

end Cache

namespace Group

open WorldM

variable {setting : Setting} {live : TableSchema → String → Prop}

/-- Laying accepted groups over a document and the cached tables leaves the stored rows and keeps the
cached documents covered, if the rows that are created are live. -/
theorem isCovered_of_commitAll (sound : setting.schema.IsSound) {groups : List Group}
    (created : ∀ group ∈ groups, group.operation = .create → ∀ table,
      setting.schema.table? table.name = some table → ∀ rowKey fields,
        (group.rows.keyed table.name)[rowKey]? = some fields → live table rowKey)
    {document after : Document} {world later : World}
    (committed : World.run (commitAll setting groups document) world = ((.ok (), after), later)) :
    world.Keeps later ∧
      (world.cache.IsCovered setting.schema live → later.cache.IsCovered setting.schema live) := by
  induction groups generalizing document world with
  | nil =>
      cases committed
      exact ⟨World.Keeps.refl _, id⟩
  | cons group groups ih =>
      rw [List.forall_mem_cons] at created
      rw [commitAll, World.run_bind, commit] at committed
      rcases laid : group.layOver setting.schema document with ⟨answer, middleDocument⟩
      rw [laid] at committed
      cases answer with
      | error rejection => cases committed
      | ok _ =>
          simp only [World.run_bind] at committed
          rcases folding : (Cache.fold setting group.rows group.operation).outcome world with
            ⟨answer, middle⟩
          have folded : World.run (Cache.fold setting group.rows group.operation).run world =
              (answer, middle) := folding
          rw [folded] at committed
          cases answer with
          | error rejection => cases committed
          | ok _ =>
              have step := Cache.isCovered_of_fold sound created.1 folding
              obtain ⟨keeps, kept⟩ := ih created.2 committed
              exact ⟨step.1.trans keeps, kept ∘ step.2⟩

end Group

end ConfigVetting
