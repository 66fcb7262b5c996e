import ConfigVetting.Proofs.Cache.Upkeep
import ConfigVetting.Proofs.Document.Layering
import ConfigVetting.Proofs.Document.Rereading
import ConfigVetting.Proofs.Session.Dependent

/-! # Tables from the cache and from the store

A whole table is loaded from the cache, by laying the states of its staged rows over the cached document,
or from the store, by fetching the rows that the staged edits do not tell all about. If no staged row has
a list instance in common with another row, both give documents that are read back to the same rows
exactly if each patch comes to the same on the fields as they are read back
(`ConfigVetting.Dependency.toRows_loadWhole_iff`). Else they may not: a row that is removed from the
cached document takes a list instance of another row with it
(`ConfigVetting.Dependency.toRows_loadWhole_of_sharedInstance`).
-/

namespace ConfigVetting

namespace StagedEdits

variable {staged : StagedEdits} {table : TableSchema} {schema : Schema} {rows : ByName Fields}

/-- Whether no staged row of a table has a list instance in common with another row that is stored or
staged, and each of them can be laid over its list instances. -/
structure KeepsApart (staged : StagedEdits) (table : TableSchema) (rows : ByName Fields) : Prop where
  apart : ∀ rowKey other key, (staged.state? table.name rowKey).isSome →
    table.Stores rows other ∨ (staged.state? table.name other).isSome →
    key ∈ table.instanceKeys rowKey → key ∈ table.instanceKeys other → rowKey = other
  takes : ∀ rowKey state, staged.state? table.name rowKey = some state → table.CanTake rowKey state

/-- Whether no staged row of a table has a list instance of a key. -/
def Passes (staged : StagedEdits) (table : TableSchema) (key : String) : Prop :=
  ∀ rowKey, (staged.state? table.name rowKey).isSome → key ∉ table.instanceKeys rowKey

namespace KeepsApart

/-- In a table of single-valued key components, no two rows have a list instance in common. -/
theorem of_isSingle (single : table.IsSingle) (named : table.segments ≠ []) (staged : StagedEdits)
    (rows : ByName Fields) : staged.KeepsApart table rows where
  apart _ _ _ _ _ inside shared :=
    (single.instanceKeys_of_mem named inside).1.symm.trans
      (single.instanceKeys_of_mem named shared).1
  takes rowKey state _ := single.canTake named rowKey state

private theorem pairwise_rows (keepsApart : staged.KeepsApart table rows) :
    (staged.rows table.name).Pairwise fun first second =>
      ∀ key ∈ table.instanceKeys first.1, key ∉ table.instanceKeys second.1 := by
  have different := List.pairwise_map.mp (staged.nodup_rows table.name)
  refine different.imp_of_mem fun {first second} member also other key inside shared => other ?_
  exact keepsApart.apart first.1 second.1 key
    (Option.isSome_iff_exists.mpr ⟨_, mem_rows_iff.mp member⟩)
    (Or.inr (Option.isSome_iff_exists.mpr ⟨_, mem_rows_iff.mp also⟩)) inside shared

/-- What is read back from a document of the stored rows once the staged ones are laid over it. -/
theorem exists_lists (keepsApart : staged.KeepsApart table rows)
    (known : schema.table? table.name = some table) (sound : table.IsSound)
    {document later : Document} {nodes : Forest Unit}
    (translated : table.rowsNodes (Store.tableRows table rows) = .ok nodes)
    (lists : document.Lists table nodes)
    (laid : DocumentM.outcome ((staged.rows table.name).forM fun row =>
      Document.overlayRow schema table row.1 row.2) document = (.ok (), later)) :
    ∃ more, later.Lists table more ∧
      (∀ key, staged.Passes table key → more.ofKey key = nodes.ofKey key) ∧
      ∀ rowKey state, staged.state? table.name rowKey = some state →
        ∀ key ∈ table.instanceKeys rowKey, table.readAt more key =
          (state.apply (rows[table.storeKey rowKey]?.map table.settled)).map table.settled := by
  obtain ⟨more, laterLists, kept, own⟩ := Document.exists_lists_of_overlayRows known sound
    keepsApart.pairwise_rows (fun row member => keepsApart.takes _ _ (mem_rows_iff.mp member)) lists laid
  refine ⟨more, laterLists, fun key passes => ?_, fun rowKey state net key inside => ?_⟩
  · refine kept key fun row member => passes row.1 ?_
    rw [mem_rows_iff.mp member]
    rfl
  · have others : ∀ other : String, (Store.tableRows table rows)[other]?.isSome →
        key ∈ table.instanceKeys other → other = rowKey := by
      intro other stored shared
      rw [Store.getElem?_tableRows] at stored
      refine (keepsApart.apart rowKey other key ?_ (Or.inl stored) inside shared).symm
      rw [net]
      rfl
    have held := TableSchema.ofKey_rowsNodes_of_own translated others
    have read := TableSchema.readAt_rowsNodes translated inside others
    rw [Store.getElem?_tableRows] at held read
    rw [own _ (mem_rows_iff.mpr net) key inside, read]
    rw [held]
    cases rows[table.storeKey rowKey]? with
    | none => exact Nat.zero_le _
    | some fields =>
        rw [Option.toList_some, List.flatMap_singleton, TableSchema.length_instancesAt]

/-- What is read back from a document of the rows that a session sees. -/
theorem ofKey_view (keepsApart : staged.KeepsApart table rows) {nodes others : Forest Unit}
    (translated : table.rowsNodes (Store.tableRows table rows) = .ok nodes) {seen : KeyedRows}
    (viewed : ∀ rowKey : String, seen[rowKey]? = staged.view rows table rowKey)
    (translatedView : table.rowsNodes seen = .ok others) :
    (∀ key, staged.Passes table key → others.ofKey key = nodes.ofKey key) ∧
      ∀ rowKey state, staged.state? table.name rowKey = some state →
        ∀ key ∈ table.instanceKeys rowKey, table.readAt others key =
          (state.apply rows[table.storeKey rowKey]?).map table.settled := by
  refine ⟨fun key passes => ?_, fun rowKey state net key inside => ?_⟩
  · rw [(TableSchema.ofKey_rowsNodes translatedView key).2,
      (TableSchema.ofKey_rowsNodes translated key).2]
    refine ByName.flatMap_toList_congr fun rowKey => ?_
    rw [viewed, Store.getElem?_tableRows]
    unfold view rowAfter
    cases net : staged.state? table.name rowKey with
    | none => rfl
    | some state =>
        have nothing : ∀ held : Option Fields,
            (held.toList.flatMap fun fields => table.instancesAt key rowKey fields) = [] :=
          fun held => List.flatMap_eq_nil_iff.mpr fun fields _ =>
            TableSchema.instancesAt_eq_nil_iff.mpr (passes rowKey (by rw [net]; rfl))
        rw [nothing, nothing]
  · have others : ∀ other : String, seen[other]?.isSome →
        key ∈ table.instanceKeys other → other = rowKey := by
      intro other there shared
      rw [viewed] at there
      unfold view rowAfter at there
      refine (keepsApart.apart rowKey other key (by rw [net]; rfl) ?_ inside shared).symm
      cases told : staged.state? table.name other with
      | none =>
          rw [told] at there
          exact Or.inl there
      | some _ => exact Or.inr rfl
    rw [TableSchema.readAt_rowsNodes translatedView inside others, viewed]
    unfold view rowAfter
    rw [net]

end KeepsApart

end StagedEdits

namespace Dependency

open WorldM

variable {source : Source} {world : World} {table : TableSchema}

/-- **The cache and the store.** While the cached document of a table is as the store holds the table, and
the staged rows lie apart, the table loaded from the cache is read back to the same rows as the table
loaded from the store exactly if every patch of a stored row comes to the same on the fields that are read
back. -/
theorem toRows_loadWhole_iff [PatternReader] {modules : List ModuleDecl} {delimiter : String}
    (built : Schema.build modules delimiter = .ok source.setting.schema)
    (known : source.setting.schema.table? table.name = some table)
    (fresh : ∃ document, world.cache.document? table.name = some document ∧
      IsBuilt source.setting world.store.rows table.name document)
    (keepsApart : source.staged.KeepsApart table world.store.rows)
    {cached stored : Document} {afterCached afterStored : World}
    (fromCache : (loadWhole { source with useCache := true } table).outcome world =
      (.ok cached, afterCached))
    (fromStore : (loadWhole { source with useCache := false } table).outcome world =
      (.ok stored, afterStored)) :
    cached.toRows source.setting.schema = stored.toRows source.setting.schema ↔
      ∀ rowKey patch fields, source.staged.state? table.name rowKey = some (.overlay patch) →
        world.store.rows[table.storeKey rowKey]? = some fields → table.instanceKeys rowKey ≠ [] →
          patch.SettlesAlike table fields := by
  have sound := (Schema.isSound_of_build built table.name table known).2
  obtain ⟨document, there, isBuilt⟩ := fresh
  obtain ⟨_, again, made⟩ := id isBuilt
  cases known.symm.trans again
  obtain ⟨nodes, translated, lists⟩ := Document.exists_lists_of_ofRows known made
  obtain ⟨found, middle, asked, rest⟩ := outcome_bind_eq_ok_iff.mp fromCache
  cases Cache.eq_of_read_of_isBuilt there isBuilt asked
  obtain ⟨more, cachedLists, passed, own⟩ := keepsApart.exists_lists known sound translated lists
    (Document.outcome_of_changed (outcome_except_eq_ok_iff.mp rest).1)
  obtain ⟨seen, madeOfView, viewed⟩ := exists_rows_of_loadStored fromStore
  obtain ⟨others, translatedView, storedLists⟩ := Document.exists_lists_of_ofRows known madeOfView
  obtain ⟨passedView, ownView⟩ := keepsApart.ofKey_view translated viewed translatedView
  rw [cachedLists.toRows_eq_iff known storedLists]
  constructor
  · intro same rowKey patch fields net stored some
    obtain ⟨key, inside⟩ := List.exists_mem_of_ne_nil _ some
    have read := same key
    rw [own rowKey _ net key inside, ownView rowKey _ net key inside, stored] at read
    exact Option.some.inj read
  · intro alike key
    by_cases passes : source.staged.Passes table key
    · exact TableSchema.readAt_congr ((passed key passes).trans (passedView key passes).symm)
    · unfold StagedEdits.Passes at passes
      push Not at passes
      obtain ⟨rowKey, touched, inside⟩ := passes
      obtain ⟨state, net⟩ := Option.isSome_iff_exists.mp touched
      rw [own rowKey state net key inside, ownView rowKey state net key inside]
      cases state with
      | present fields => rfl
      | deleted => rfl
      | overlay patch =>
          cases held : world.store.rows[table.storeKey rowKey]? with
          | none => rfl
          | some fields =>
              exact congrArg some (alike rowKey patch fields net held (List.ne_nil_of_mem inside))

/-- A setting with a table of ports. -/
def portSetting : Setting where
  schema := .ofModules portsAndQueues
  database := 0
  batchSize := 100

/-- Stored ports, one with a reference to another. -/
def storedPorts : ByName Fields :=
  (((∅ : ByName Fields).insert "PORT|x"
    (((∅ : Fields).insert "mtu" "9100").insert "lanes@" "1,2")).insert "PORT|y"
    ((∅ : Fields).insert "mtu" "[PORT|z]")).insert "PORT|z" ((∅ : Fields).insert "NULL" "NULL")

/-- Edits of these ports and of another one. -/
def stagedPorts : StagedEdits :=
  (((StagedEdits.empty.record "PORT" "x" .update ((∅ : Fields).insert "mtu" "1500")).record
    "PORT" "y" .update ((∅ : Fields).insert "lanes" "3,4")).record
    "PORT" "z" .delete ∅).record "PORT" "w" .create ((∅ : Fields).insert "mtu" "9216")

/-- Ports are served alike while edits of each kind are staged. -/
theorem toRows_loadWhole_storedPorts :
    let source : Source := { setting := portSetting, staged := stagedPorts }
    let world := World.watching portSetting "PORT" storedPorts
    ∃ table cached stored afterCached afterStored,
      portSetting.schema.table? table.name = some table ∧
      (∃ document, world.cache.document? table.name = some document ∧
        IsBuilt portSetting storedPorts table.name document) ∧
      stagedPorts.KeepsApart table storedPorts ∧
      (loadWhole { source with useCache := true } table).outcome world = (.ok cached, afterCached) ∧
      (loadWhole { source with useCache := false } table).outcome world = (.ok stored, afterStored) ∧
      cached.toRows portSetting.schema = stored.toRows portSetting.schema := by
  intro source world
  have built := Schema.build_eq_ofModules
    (show (Schema.build portsAndQueues Schema.usualDelimiter).isOk by decide +kernel)
  have facts : (portSetting.schema.table? "PORT").any fun table =>
      table.name = "PORT" ∧ table.IsSingle ∧
        (∀ row ∈ (Store.tableRows table storedPorts).toList, (table.expandKey row.1).isOk) ∧
        (∀ row ∈ storedPorts.toList, table.Rereads row.2) ∧
        ((loadWhole { source with useCache := true } table).outcome world).1.isOk ∧
        ((loadWhole { source with useCache := false } table).outcome world).1.isOk := by
    decide +kernel
  obtain ⟨table, named, holds⟩ := (Option.any_eq_true _ _).mp facts
  obtain ⟨own, single, expands, rereads, cacheLoads, storeLoads⟩ := of_decide_eq_true holds
  have known : portSetting.schema.table? table.name = some table := own ▸ named
  have fresh :=
    World.exists_isBuilt_watching known own (TableSchema.exists_expandKey_of_stores expands)
  have apart := StagedEdits.KeepsApart.of_isSingle single
    (Schema.isSound_of_build built table.name table known).2.named stagedPorts storedPorts
  obtain ⟨cached, afterCached, fromCache⟩ := exists_outcome_of_isOk cacheLoads
  obtain ⟨stored, afterStored, fromStore⟩ := exists_outcome_of_isOk storeLoads
  refine ⟨table, cached, stored, afterCached, afterStored, known, fresh, apart, fromCache, fromStore,
    ?_⟩
  refine (toRows_loadWhole_iff built known fresh apart fromCache fromStore).mpr
    fun rowKey patch fields net held _ => ?_
  have regular : ∀ row ∈ stagedPorts.rows "PORT", row.2.IsRegular := by
    decide +kernel
  rw [own] at net
  exact Patch.IsRegular.settlesAlike (regular _ (StagedEdits.mem_rows_iff.mpr net))
    (rereads _ (Std.ExtTreeMap.mem_toList_iff_getElem?_eq_some.mpr held))

/-- A row is deleted whose list instance another row has too: what goes from the cached document is the
list instance of the other row. -/
theorem toRows_loadWhole_of_sharedInstance :
    let setting := World.groupedSetting none
    let rows := ((∅ : ByName Fields).insert "T|a" ((∅ : Fields).insert "f" "1")).insert "T|a,b"
      ((∅ : Fields).insert "f" "2")
    let source : Source := { setting, staged := StagedEdits.empty.record "T" "a,b" .delete ∅ }
    let world := World.watching setting "T" rows
    ∃ table cached stored, setting.schema.table? table.name = some table ∧
      (∃ document, world.cache.document? table.name = some document ∧
        IsBuilt setting rows table.name document) ∧
      ((loadWhole { source with useCache := true } table).outcome world).1 = .ok cached ∧
      ((loadWhole { source with useCache := false } table).outcome world).1 = .ok stored ∧
      cached.toRows setting.schema ≠ stored.toRows setting.schema := by
  intro setting rows source world
  let rowsOf (document : Document) : Option KeyedRows :=
    (document.toRows setting.schema).toOption.bind fun rows => rows["T"]?
  have facts : (setting.schema.table? "T").any fun table =>
      table.name = "T" ∧
        (∀ row ∈ (Store.tableRows table rows).toList, (table.expandKey row.1).isOk) ∧
        ((loadWhole { source with useCache := true } table).outcome world).1.toOption.any
          fun cached => ((loadWhole { source with useCache := false } table).outcome world).1.toOption.any
            fun stored => rowsOf cached ≠ rowsOf stored := by
    decide +kernel
  obtain ⟨table, named, holds⟩ := (Option.any_eq_true _ _).mp facts
  obtain ⟨own, expands, differs⟩ := of_decide_eq_true holds
  have known : setting.schema.table? table.name = some table := own ▸ named
  have fresh :=
    World.exists_isBuilt_watching known own (TableSchema.exists_expandKey_of_stores expands)
  obtain ⟨cached, fromCache, differs⟩ := (Option.any_eq_true _ _).mp differs
  obtain ⟨stored, fromStore, differs⟩ := (Option.any_eq_true _ _).mp differs
  refine ⟨table, cached, stored, known, fresh, Except.toOption_eq_some_iff.mp fromCache,
    Except.toOption_eq_some_iff.mp fromStore, fun same => ?_⟩
  exact of_decide_eq_true differs (congrArg
    (fun read => read.toOption.bind fun rows => rows["T"]?) same)

end Dependency

end ConfigVetting
