import ConfigVetting.Proofs.Document.Overlaying
import ConfigVetting.Proofs.Session.Grouping
import ConfigVetting.Proofs.Staging.NetState
import ConfigVetting.Proofs.World.Caching

/-! # Laying groups over documents

What the groups of a batch make of the document of the session and of the cached tables, for tables
with single-valued keys. The document of the session is only merged into, so it is known what rows it
holds (`ConfigVetting.Group.layOver_spec`); a cached table follows the fields of its rows
(`ConfigVetting.Cache.fold_spec`).
-/

namespace ConfigVetting

namespace StagedEdit

/-- Whether a document that edits are merged into holds a row after an edit. -/
def holdsAfter (held : Bool) (edit : StagedEdit) : Bool :=
  if edit.operation = .delete then held && !edit.fields.areNone else true

/-- The fields of a row in a cached table after an edit. Edits that do not replace them find the fields
as they are read back from the list instance. -/
def takenBy (table : TableSchema) (row : Option Fields) (edit : StagedEdit) : Option Fields :=
  edit.state.apply (row.map table.settled)

end StagedEdit

namespace TableRows

/-- What rows of an operation say of one row. -/
def edit? (rows : TableRows) (operation : Operation) (table rowKey : String) : Option StagedEdit :=
  (rows.keyed table)[rowKey]?.map fun fields => ⟨operation, fields⟩

end TableRows

namespace Group

open DocumentM

variable {schema : Schema} {before : Document}

/-- Taking out the rows of tables, or changing them, one table after another. -/
theorem overlayTables_spec {entries : List (String × KeyedRows)}
    (reads : ∀ entry ∈ entries, ∃ table : TableSchema, table.name = entry.1 ∧
      table.Reads schema entry.2) (distinct : (entries.map Prod.fst).Nodup) (operation : Operation)
    (shaped : before.IsShaped schema) :
    ∃ after, DocumentM.outcome (entries.forM fun (name, keyed) =>
        match schema.table? name with
        | none => pure ()
        | some table => keyed.toList.forM fun (rowKey, fields) =>
            Document.overlayRow schema table rowKey (.ofEdit operation fields)) before =
          (.ok (), after) ∧ after.IsShaped schema ∧
      ∀ table, schema.table? table.name = some table → ∀ key,
        after.row? table key =
          match (entries.find? fun entry => entry.1 = table.name).bind fun entry => entry.2[key]? with
          | some fields => (RowState.ofEdit operation fields).instanceAfter table key
              (before.row? table key)
          | none => before.row? table key := by
  induction entries generalizing before with
  | nil => exact ⟨before, rfl, shaped, fun _ _ _ => rfl⟩
  | cons entry entries ih =>
      obtain ⟨name, keyed⟩ := entry
      rw [List.forall_mem_cons] at reads
      rw [List.map_cons, List.nodup_cons] at distinct
      obtain ⟨⟨table, rfl, tableReads⟩, restReads⟩ := reads
      obtain ⟨middle, laid, middleShaped, own, others⟩ := Document.overlayEntries_spec
        tableReads.known tableReads.named tableReads.single
        (fun entry member => tableReads.split entry.1 entry.2
          (Std.ExtTreeMap.mem_toList_iff_getElem?_eq_some.mp member))
        keyed.nodup_toList operation shaped
      obtain ⟨after, laidRest, afterShaped, found⟩ := ih restReads distinct.2 middleShaped
      refine ⟨after, ?_, afterShaped, fun other otherKnown key => ?_⟩
      · change ((match schema.table? table.name with
          | none => pure ()
          | some table => keyed.toList.forM fun (rowKey, fields) =>
              Document.overlayRow schema table rowKey (.ofEdit operation fields) : DocumentM Unit) >>=
            fun _ => entries.forM _).outcome before = _
        rw [outcome_bind]
        simp only [tableReads.known]
        rw [laid]
        exact laidRest
      · rw [found other otherKnown, List.find?_cons]
        by_cases same : table.name = other.name
        · cases Schema.eq_of_name_eq tableReads.known otherKnown same
          rw [ByName.find?_eq_none_of_notMem distinct.1]
          simp only [decide_true, Option.bind_some, Option.bind_none]
          rw [own, keyed.find?_toList]
          cases keyed[key]? <;> rfl
        · simp only [same, decide_false]
          rw [others other otherKnown same]

/-- The rows of edits on tables with single-valued keys are read by their tables. -/
theorem areRead_rowsOf (sound : schema.IsSound) {edits : List KeyedEdit}
    (keyedSound : ∀ keyed ∈ edits, keyed.IsSound schema)
    (single : ∀ keyed ∈ edits, keyed.table.IsSingle) (operation : Operation) :
    Forest.AreRead schema (rowsOf operation edits) := by
  intro name rows stored
  have inside : name ∈ rowsOf operation edits := by
    rw [Std.ExtTreeMap.mem_iff_isSome_getElem?, stored]
    rfl
  obtain ⟨keyed, member, _, named⟩ := exists_of_mem_rowsOf inside
  have known := (keyedSound keyed member).known
  refine ⟨keyed.table, named, known, (sound keyed.table.name keyed.table known).2.named,
    single keyed member, fun rowKey fields row => ?_⟩
  have found : ((rowsOf operation edits).keyed name)[rowKey]? = some fields := by
    rw [TableRows.keyed, stored]
    exact row
  rw [getElem?_rowsOf] at found
  obtain ⟨own, ofRow⟩ := exists_of_gathered found
  obtain ⟨given, _, sameTable, rfl⟩ := mem_editsOf_iff.mp ofRow
  have ownSound := keyedSound own given
  rw [← Schema.eq_of_name_eq ownSound.known known (sameTable.trans named.symm)]
  exact ⟨own.keyComponents, ownSound.split⟩

/-- What the rows of a group say of one row. -/
def edit? (group : Group) (table rowKey : String) : Option StagedEdit :=
  group.rows.edit? group.operation table rowKey

/-- The subject of a group with single-valued keys has the shape of the schema and holds the rows of
the group. -/
theorem subject_spec {group : Group} (reads : Forest.AreRead schema group.rows)
    (translated : Document.ofRows schema group.rows = .ok group.subject) :
    group.subject.IsShaped schema ∧ ∀ table, schema.table? table.name = some table → ∀ key,
      group.subject.row? table key =
        (group.rows.keyed table.name)[key]?.map (table.rowNode key) := by
  obtain ⟨forest, made, shaped, found⟩ := Forest.ofRows_spec reads
  unfold Document.ofRows at translated
  rw [made] at translated
  have same : Document.ofForest forest = group.subject := Except.ok.inj translated
  unfold Document.IsShaped Document.row?
  rw [← same, Document.trees_ofForest, Forest.bare_tree]
  exact ⟨shaped, found⟩

/-- A group that is laid over a document adds its rows, or takes them out. -/
theorem layOver_spec {group : Group} (reads : Forest.AreRead schema group.rows)
    (translated : Document.ofRows schema group.rows = .ok group.subject)
    (shaped : before.IsShaped schema) :
    ∃ after, group.layOver schema before = (.ok (), after) ∧ after.IsShaped schema ∧
      ∀ table, schema.table? table.name = some table → ∀ key,
        (after.row? table key).isSome = (group.edit? table.name key).toList.foldl
          StagedEdit.holdsAfter (before.row? table key).isSome := by
  unfold layOver
  by_cases deletes : group.operation = .delete
  · have entries : ∀ entry ∈ group.rows.toList, ∃ table : TableSchema, table.name = entry.1 ∧
        table.Reads schema entry.2 := fun entry member =>
      reads entry.1 entry.2 (Std.ExtTreeMap.mem_toList_iff_getElem?_eq_some.mp member)
    obtain ⟨after, laid, afterShaped, found⟩ := overlayTables_spec entries
      group.rows.nodup_toList group.operation shaped
    refine ⟨after, (if_pos deletes).trans laid, afterShaped, fun table known key => ?_⟩
    have looked : ((group.rows.toList.find? fun entry => entry.1 = table.name).bind
        fun entry => entry.2[key]?) = (group.rows.keyed table.name)[key]? := by
      rw [group.rows.find?_toList, TableRows.keyed]
      cases group.rows[table.name]? with
      | none => simp
      | some keyed => rfl
    rw [found table known, looked, edit?, TableRows.edit?]
    cases (group.rows.keyed table.name)[key]? with
    | none => rfl
    | some fields =>
        simp only [Option.map_some, Option.toList_some, List.foldl_cons, List.foldl_nil,
          StagedEdit.holdsAfter, deletes, ↓reduceIte, RowState.ofEdit]
        cases fields.areNone with
        | true => simp [RowState.instanceAfter, RowState.apply]
        | false => simp [RowState.instanceAfter, RowState.apply]
  · obtain ⟨subjectShaped, held⟩ := subject_spec reads translated
    refine ⟨before.merge group.subject.roots, if_neg deletes, shaped.merge subjectShaped,
      fun table known key => ?_⟩
    have own := held table known key
    unfold Document.row? Document.trees at own
    rw [Document.row?_merge shaped subjectShaped, own, Forest.isSome_joinFound, edit?,
      TableRows.edit?]
    cases (group.rows.keyed table.name)[key]? with
    | none => simp
    | some fields => simp [StagedEdit.holdsAfter, deletes]

end Group

namespace Cache

open WorldM

variable {setting : Setting}

/-- The fields that the documents of cached tables hold, for tables with single-valued keys. -/
def Follows (schema : Schema) (cache : Cache)
    (content : TableSchema → String → Option Fields) : Prop :=
  ∀ table, schema.table? table.name = some table → table.IsSingle → ∀ document,
    cache.document? table.name = some document → document.IsShaped schema ∧
      ∀ key, document.row? table key = (content table key).map (table.rowNode key)

/-- When the entry of a table was made, how long it lasts, and whether it has a document. -/
def age? (cache : Cache) (name : String) : Option (Int × Nat × Bool) :=
  cache.entries[name]?.map fun entry => (entry.createdAt, entry.expirySecs, entry.document.isSome)

/-- Changing a document that is there changes no other, and no ages. -/
theorem putDocument_spec {cache : Cache} {name : String} {document : Document}
    (cached : cache.document? name = some document) (changed : Document) :
    (∀ other, (cache.putDocument name (some changed)).document? other =
      if name = other then some changed else cache.document? other) ∧
    ∀ other, (cache.putDocument name (some changed)).age? other = cache.age? other := by
  obtain ⟨entry, registered, held⟩ := Option.bind_eq_some_iff.mp cached
  refine ⟨fun other => ?_, fun other => ?_⟩
  · rw [document?_putDocument]
    by_cases same : name = other
    · subst same
      rw [if_pos rfl, if_pos ⟨rfl, Std.ExtTreeMap.mem_iff_isSome_getElem?.mpr (by rw [registered]; rfl)⟩]
    · rw [if_neg same, if_neg fun both => same both.1]
  · unfold age?
    rw [getElem?_entries_putDocument]
    by_cases same : name = other
    · subst same
      rw [if_pos rfl, registered]
      simp [held]
    · rw [if_neg same]

/-- Folds edited rows of one table into its document, if it has one. -/
def foldTable (setting : Setting) (operation : Operation) (name : String) (keyed : KeyedRows) :
    WorldM Unit := do
  if ((← get).cache.document? name).isNone then return
  let table ← (setting.schema.knownTable name : Except Rejection _)
  changeDocument name do
    keyed.toList.forM fun (rowKey, fields) =>
      Document.overlayRow setting.schema table rowKey (.ofEdit operation fields)
    modify Document.compactIfSparse
  World.countUse fun stats => { stats with folds := stats.folds + 1 }

/-- Folding rows leaves a table without a document as it is, and lays them over the document of another
one. -/
theorem outcome_foldTable_eq_ok_iff {operation : Operation} {name : String} {keyed : KeyedRows}
    {world later : World} :
    (foldTable setting operation name keyed).outcome world = (.ok (), later) ↔
      (world.cache.document? name = none ∧ world = later) ∨
      ∃ document table after, world.cache.document? name = some document ∧
        setting.schema.table? name = some table ∧
        DocumentM.outcome (keyed.toList.forM fun (rowKey, fields) =>
          Document.overlayRow setting.schema table rowKey (.ofEdit operation fields)) document =
            (.ok (), after) ∧
        { world with cache :=
          { world.cache.putDocument name (some after.compactIfSparse) with
            stats.folds := world.cache.stats.folds + 1 } } = later := by
  unfold foldTable
  rw [outcome_bind, outcome_get]
  cases cached : world.cache.document? name with
  | none =>
      simp only [cached, Option.isNone_none, ↓reduceIte, reduceCtorEq, false_and, exists_false,
        or_false, true_and]
      exact ⟨congrArg Prod.snd, fun same => same ▸ rfl⟩
  | some document =>
      simp only [cached, Option.isNone_some, Bool.false_eq_true, ↓reduceIte, reduceCtorEq, false_and,
        false_or, Option.some.injEq]
      constructor
      · intro folded
        obtain ⟨table, _, found, rest⟩ := outcome_bind_eq_ok_iff.mp folded
        obtain ⟨known, rfl⟩ := outcome_except_eq_ok_iff.mp found
        obtain ⟨_, _, changed, counted⟩ := outcome_bind_eq_ok_iff.mp rest
        rw [outcome_changeDocument, cached] at changed
        obtain ⟨accepted, rfl⟩ := Prod.mk.inj changed
        obtain ⟨_, after, laid, compacted⟩ := DocumentM.outcome_bind_eq_ok_iff.mp (Prod.ext accepted rfl)
        have compact := congrArg Prod.snd compacted
        cases counted
        exact ⟨document, table, after, rfl, Schema.knownTable_eq_ok_iff.mp known, laid, by
          rw [← compact]
          rfl⟩
      · rintro ⟨_, table, after, rfl, known, laid, rfl⟩
        rw [outcome_bind, outcome_except, Schema.knownTable_eq_ok_iff.mpr known]
        simp only
        rw [outcome_bind, outcome_changeDocument, cached]
        simp only
        rw [DocumentM.outcome_bind, laid]
        rfl

/-- Edits that act are folded into the cache table by table. -/
theorem fold_eq (rows : TableRows) {operation : Operation} (acts : operation ≠ .none) :
    fold setting rows operation =
      rows.toList.forM fun (name, keyed) => foldTable setting operation name keyed := by
  unfold fold
  rw [if_neg acts]
  rfl

/-- The fields of rows after those of an operation are taken. -/
def takenFrom (operation : Operation) (rows : TableSchema → String → Option Fields)
    (content : TableSchema → String → Option Fields) (table : TableSchema) (key : String) :
    Option Fields :=
  match rows table key with
  | some fields => StagedEdit.takenBy table (content table key) ⟨operation, fields⟩
  | none => content table key

private theorem instanceAfter_rowNode (table : TableSchema) (key : String) (operation : Operation)
    (fields : Fields) (row : Option Fields) :
    (RowState.ofEdit operation fields).instanceAfter table key (row.map (table.rowNode key)) =
      (StagedEdit.takenBy table row ⟨operation, fields⟩).map (table.rowNode key) := by
  unfold RowState.instanceAfter StagedEdit.takenBy StagedEdit.state
  rw [Option.map_map]
  have read : table.instanceFields ∘ table.rowNode key = table.settled :=
    funext fun fields => table.instanceFields_rowNode key fields
  rw [read]

/-- Folding the rows of a table with single-valued keys makes its document follow them. -/
theorem foldTable_spec {table : TableSchema} {keyed : KeyedRows}
    (reads : table.Reads setting.schema keyed) (operation : Operation) {world : World}
    {content : TableSchema → String → Option Fields}
    (follows : world.cache.Follows setting.schema content) :
    ∃ later, (foldTable setting operation table.name keyed).outcome world = (.ok (), later) ∧
      later.store = world.store ∧ later.clock = world.clock ∧
      (∀ name, later.cache.age? name = world.cache.age? name) ∧
      later.cache.Follows setting.schema (takenFrom operation
        (fun other key => if table.name = other.name then keyed[key]? else none) content) := by
  cases cached : world.cache.document? table.name with
  | none =>
      refine ⟨world, outcome_foldTable_eq_ok_iff.mpr (Or.inl ⟨cached, rfl⟩), rfl, rfl, fun _ => rfl,
        fun other otherKnown single document held => ?_⟩
      have apart : table.name ≠ other.name := by
        intro same
        rw [← same, cached] at held
        cases held
      obtain ⟨shaped, rows⟩ := follows other otherKnown single document held
      refine ⟨shaped, fun key => ?_⟩
      rw [rows, takenFrom, if_neg apart]
  | some document =>
      obtain ⟨shaped, rows⟩ := follows table reads.known reads.single document cached
      obtain ⟨after, laid, afterShaped, own, _⟩ := Document.overlayEntries_spec reads.known
        reads.named reads.single
        (fun entry member => reads.split entry.1 entry.2
          (Std.ExtTreeMap.mem_toList_iff_getElem?_eq_some.mp member))
        keyed.nodup_toList operation shaped
      obtain ⟨documents, ages⟩ := putDocument_spec cached after.compactIfSparse
      have folded := outcome_foldTable_eq_ok_iff.mpr
        (Or.inr ⟨document, table, after, cached, reads.known, laid, rfl⟩)
      refine ⟨_, folded, rfl, rfl, ages, fun other otherKnown single laterDocument held => ?_⟩
      have heldAfter : (world.cache.putDocument table.name (some after.compactIfSparse)).document?
          other.name = some laterDocument := held
      rw [documents] at heldAfter
      by_cases same : table.name = other.name
      · cases Schema.eq_of_name_eq reads.known otherKnown same
        rw [if_pos rfl] at heldAfter
        cases heldAfter
        refine ⟨afterShaped.compactIfSparse, fun key => ?_⟩
        rw [Document.row?_compactIfSparse, own, keyed.find?_toList, takenFrom, if_pos rfl, rows]
        cases keyed[key]? with
        | none => rfl
        | some fields => exact instanceAfter_rowNode table key operation fields _
      · rw [if_neg same] at heldAfter
        obtain ⟨otherShaped, otherRows⟩ := follows other otherKnown single laterDocument heldAfter
        refine ⟨otherShaped, fun key => ?_⟩
        rw [otherRows, takenFrom, if_neg same]

/-- Folding the rows of tables one after another makes their documents follow all of them. -/
theorem foldTables_spec {entries : List (String × KeyedRows)}
    (reads : ∀ entry ∈ entries, ∃ table : TableSchema, table.name = entry.1 ∧
      table.Reads setting.schema entry.2) (distinct : (entries.map Prod.fst).Nodup)
    (operation : Operation) {world : World} {content : TableSchema → String → Option Fields}
    (follows : world.cache.Follows setting.schema content) :
    ∃ later, WorldM.outcome (entries.forM fun (name, keyed) =>
        foldTable setting operation name keyed) world = (.ok (), later) ∧
      later.store = world.store ∧ later.clock = world.clock ∧
      (∀ name, later.cache.age? name = world.cache.age? name) ∧
      later.cache.Follows setting.schema (takenFrom operation
        (fun table key => (entries.find? fun entry => entry.1 = table.name).bind
          fun entry => entry.2[key]?) content) := by
  induction entries generalizing world content with
  | nil => exact ⟨world, rfl, rfl, rfl, fun _ => rfl, follows⟩
  | cons entry entries ih =>
      obtain ⟨name, keyed⟩ := entry
      rw [List.forall_mem_cons] at reads
      rw [List.map_cons, List.nodup_cons] at distinct
      obtain ⟨⟨table, rfl, tableReads⟩, restReads⟩ := reads
      obtain ⟨middle, folded, store, clock, ages, middleFollows⟩ :=
        foldTable_spec tableReads operation follows
      obtain ⟨later, foldedRest, restStore, restClock, restAges, laterFollows⟩ :=
        ih restReads distinct.2 middleFollows
      refine ⟨later, ?_, restStore.trans store, restClock.trans clock,
        fun name => (restAges name).trans (ages name), ?_⟩
      · change (foldTable setting operation table.name keyed >>= fun _ =>
          entries.forM _).outcome world = _
        rw [outcome_bind, folded]
        exact foldedRest
      · convert laterFollows using 1
        funext other key
        simp only [takenFrom, List.find?_cons]
        by_cases same : table.name = other.name
        · simp [same, ByName.find?_eq_none_of_notMem (same ▸ distinct.1)]
        · simp [same]

/-- Folding the rows of tables with single-valued keys makes the cached documents follow them. -/
theorem fold_spec {rows : TableRows} (reads : Forest.AreRead setting.schema rows)
    {operation : Operation} (acts : operation ≠ .none) {world : World}
    {content : TableSchema → String → Option Fields}
    (follows : world.cache.Follows setting.schema content) :
    ∃ later, (fold setting rows operation).outcome world = (.ok (), later) ∧
      later.store = world.store ∧ later.clock = world.clock ∧
      (∀ name, later.cache.age? name = world.cache.age? name) ∧
      later.cache.Follows setting.schema fun table key =>
        (rows.edit? operation table.name key).toList.foldl (StagedEdit.takenBy table)
          (content table key) := by
  obtain ⟨later, folded, store, clock, ages, laterFollows⟩ := foldTables_spec
    (fun entry member => reads entry.1 entry.2 (Std.ExtTreeMap.mem_toList_iff_getElem?_eq_some.mp member))
    rows.nodup_toList operation follows
  rw [fold_eq rows acts]
  refine ⟨later, folded, store, clock, ages, ?_⟩
  convert laterFollows using 1
  funext table key
  simp only [takenFrom, TableRows.edit?, TableRows.keyed, rows.find?_toList]
  cases rows[table.name]? with
  | none => simp
  | some keyed =>
      simp only [Option.getD_some, Option.map_some, Option.bind_some]
      cases keyed[key]? <;> rfl

end Cache

namespace Group

variable {setting : Setting}

/-- Whether a group is one of rows with single-valued keys, with the document that they are. -/
structure IsSingle (schema : Schema) (group : Group) : Prop where
  acts : group.operation ≠ .none
  reads : Forest.AreRead schema group.rows
  translated : Document.ofRows schema group.rows = .ok group.subject

/-- What some groups say of one row, in order. -/
def editsIn (groups : List Group) (table rowKey : String) : List StagedEdit :=
  groups.filterMap fun group => group.edit? table rowKey

private theorem editsIn_cons (group : Group) (groups : List Group) (table rowKey : String) :
    editsIn (group :: groups) table rowKey =
      (group.edit? table rowKey).toList ++ editsIn groups table rowKey := by
  unfold editsIn
  rw [List.filterMap_cons]
  cases group.edit? table rowKey <;> rfl

/-- The edits of a row in judged groups are those of its rows, in the order of the groups. -/
theorem editsIn_eq {entries : List (Operation × TableRows)} {groups : List Group}
    (made : List.Forall₂ (fun rows group => group.operation = rows.1 ∧ group.rows = rows.2)
      entries groups) (table rowKey : String) :
    editsIn groups table rowKey =
      entries.filterMap fun (operation, rows) => rows.edit? operation table rowKey := by
  unfold editsIn
  induction made with
  | nil => rfl
  | cons head _ ih =>
      rw [List.filterMap_cons, List.filterMap_cons, ih, edit?, head.1, head.2]

/-- Groups of rows with single-valued keys are laid over a document and the cached tables. The document
holds the rows that the groups leave in it, and the cached tables follow the groups. -/
theorem commitAll_spec {groups : List Group}
    (single : ∀ group ∈ groups, group.IsSingle setting.schema) {document : Document}
    (shaped : document.IsShaped setting.schema) {world : World}
    {content : TableSchema → String → Option Fields}
    (follows : world.cache.Follows setting.schema content) :
    ∃ after later, World.run (commitAll setting groups document) world = ((.ok (), after), later) ∧
      after.IsShaped setting.schema ∧
      (∀ table, setting.schema.table? table.name = some table → ∀ key,
        (after.row? table key).isSome = (editsIn groups table.name key).foldl
          StagedEdit.holdsAfter (document.row? table key).isSome) ∧
      later.store = world.store ∧ later.clock = world.clock ∧
      (∀ name, later.cache.age? name = world.cache.age? name) ∧
      later.cache.Follows setting.schema fun table key =>
        (editsIn groups table.name key).foldl (StagedEdit.takenBy table) (content table key) := by
  induction groups generalizing document world content with
  | nil =>
      exact ⟨document, world, rfl, shaped, fun _ _ _ => rfl, rfl, rfl, fun _ => rfl, follows⟩
  | cons group groups ih =>
      rw [List.forall_mem_cons] at single
      obtain ⟨first, restSingle⟩ := single
      obtain ⟨laid, laidOver, laidShaped, held⟩ :=
        layOver_spec first.reads first.translated shaped
      obtain ⟨middle, folded, store, clock, ages, middleFollows⟩ :=
        Cache.fold_spec first.reads first.acts follows
      obtain ⟨after, later, rest, afterShaped, restHeld, restStore, restClock, restAges,
        laterFollows⟩ := ih restSingle laidShaped middleFollows
      refine ⟨after, later, ?_, afterShaped, fun table known key => ?_, restStore.trans store,
        restClock.trans clock, fun name => (restAges name).trans (ages name), ?_⟩
      · have committed : World.run (group.commit setting document) world =
            ((.ok (), laid), middle) := by
          unfold commit
          rw [laidOver]
          simp only
          rw [World.run_bind, WorldM.run_run, folded]
          rfl
        rw [commitAll, World.run_bind, committed]
        exact rest
      · rw [restHeld table known, held table known, editsIn_cons, List.foldl_append]
      · convert laterFollows using 1
        funext table key
        rw [editsIn_cons, List.foldl_append]
        rfl

end Group

end ConfigVetting
