import ConfigVetting.Proofs.Session.Commitment
import ConfigVetting.Proofs.Session.Recording
import ConfigVetting.Proofs.Session.Rejected
import ConfigVetting.Proofs.World.StoredRows

/-! # Documents after runs

A run is a series of accepted batches, between which time may pass. After each of them the document of
the session and the cached tables follow the edits as these were regrouped by operation, while the
staged edits keep the order of submission. So the documents say what the net effect of the edits on a
row says exactly if regrouping the edits of the row keeps it
(`ConfigVetting.Session.Reaches.followsNet_iff`).
-/

namespace ConfigVetting

open WorldM

namespace Schema

/-- The edits of a batch with their keys resolved. -/
def resolved (schema : Schema) (edits : List Edit) : List KeyedEdit :=
  edits.filterMap fun edit => (schema.keyed edit).toOption

/-- What a batch says of one row, edit by edit. -/
def submitted (schema : Schema) (table rowKey : String) (edits : List Edit) : List StagedEdit :=
  KeyedEdit.stagedOn table rowKey (schema.resolved edits)

/-- What a batch says of one row, operation by operation. -/
def regrouped (schema : Schema) (table rowKey : String) (edits : List Edit) : List StagedEdit :=
  (Group.byOperation (schema.resolved edits)).filterMap fun (operation, rows) =>
    rows.edit? operation table rowKey

/-- Edits whose keys are all known are resolved to these. -/
theorem resolved_eq {schema : Schema} {edits : List Edit} {keyed : List KeyedEdit}
    (found : List.Forall₂ (fun edit keyed => schema.keyed edit = .ok keyed) edits keyed) :
    schema.resolved edits = keyed := by
  unfold resolved
  induction found with
  | nil => rfl
  | cons head _ ih =>
      rw [List.filterMap_cons, head, ih]
      rfl

end Schema

/-- Whether an edit is checked and changes a row of a table with single-valued keys. -/
def Edit.ActsOnSingle (schema : Schema) (edit : Edit) : Prop :=
  edit.validateNow = true ∧ edit.operation ≠ .none ∧
    ∀ row ∈ schema.splitStoreKey edit.key, row.1.IsSingle

instance (schema : Schema) (edit : Edit) : Decidable (edit.ActsOnSingle schema) :=
  inferInstanceAs (Decidable (_ ∧ _ ∧ ∀ row ∈ schema.splitStoreKey edit.key, row.1.IsSingle))

/-- A batch of edits, and when it is vetted. -/
structure TimedBatch where
  time : Int
  edits : List Edit

namespace Session

/-- Whether a session and a world are what accepted batches, vetted one after another, make of earlier
ones. -/
inductive Reaches (engine : Engine) (session : Session) (world : World) :
    List TimedBatch → Session → World → Prop where
  | start : Reaches engine session world [] session world
  | batch {batches : List TimedBatch} {later : Session} {after : World}
      (run : Reaches engine session world batches later after) (next : TimedBatch)
      (accepted : (World.run (later.validate engine next.edits)
        { after with clock := next.time }).1.1.isOk) :
      Reaches engine session world (batches ++ [next])
        (World.run (later.validate engine next.edits) { after with clock := next.time }).1.2
        (World.run (later.validate engine next.edits) { after with clock := next.time }).2

/-- A run of given batches reaches one session and one world. -/
theorem Reaches.unique {engine : Engine} {session first second : Session}
    {world firstWorld secondWorld : World} {batches : List TimedBatch}
    (run : Reaches engine session world batches first firstWorld)
    (other : Reaches engine session world batches second secondWorld) :
    first = second ∧ firstWorld = secondWorld := by
  induction run generalizing second secondWorld with
  | start =>
      generalize empty : ([] : List TimedBatch) = all at other
      cases other with
      | start => exact ⟨rfl, rfl⟩
      | batch run next accepted => simp at empty
  | batch run next accepted ih =>
      generalize same : _ ++ [next] = all at other
      cases other with
      | start => simp at same
      | batch otherRun otherNext otherAccepted =>
          obtain ⟨rfl, last⟩ := List.append_inj' same rfl
          cases last
          obtain ⟨rfl, rfl⟩ := ih otherRun
          exact ⟨rfl, rfl⟩

/-- Whether every cached table has a document as the store holds it, which does not expire before some
batches are vetted. -/
def IsFresh (engine : Engine) (world : World) (batches : List TimedBatch) : Prop :=
  ∀ (name : String) (entry : CacheEntry), world.cache.entries[name]? = some entry →
    (∃ document, entry.document = some document ∧
      IsBuilt engine.setting world.store.rows name document) ∧
    ∀ batch ∈ batches, entry.isExpired batch.time = false

/-- What is known of a session and a world after some batches. -/
structure IsFollowed (engine : Engine) (start : World) (batches : List TimedBatch)
    (session : Session) (world : World) : Prop where
  live : session.phase ≠ .closed
  rows : world.store.rows = start.store.rows
  ages : ∀ name, world.cache.age? name = start.cache.age? name
  staged : ∀ table rowKey, session.staged.requests.edits table rowKey =
    batches.flatMap fun batch => engine.setting.schema.submitted table rowKey batch.edits
  shaped : session.document.IsShaped engine.setting.schema
  held : ∀ table, engine.setting.schema.table? table.name = some table → ∀ key,
    (session.document.row? table key).isSome =
      (batches.flatMap fun batch => engine.setting.schema.regrouped table.name key
        batch.edits).foldl StagedEdit.holdsAfter false
  follows : world.cache.Follows engine.setting.schema fun table key =>
    (batches.flatMap fun batch => engine.setting.schema.regrouped table.name key
      batch.edits).foldl (StagedEdit.takenBy table) start.store.rows[table.storeKey key]?

end Session

/-- A document that is built holds the stored rows of its table. -/
theorem IsBuilt.spec {setting : Setting} (sound : setting.schema.IsSound) {rows : ByName Fields}
    {table : TableSchema} (known : setting.schema.table? table.name = some table)
    (single : table.IsSingle) {document : Document}
    (built : IsBuilt setting rows table.name document) :
    document.IsShaped setting.schema ∧ ∀ key, document.row? table key =
      rows[table.storeKey key]?.map (table.rowNode key) := by
  obtain ⟨same, found, translated⟩ := built
  cases known.symm.trans found
  obtain ⟨forest, made, rfl⟩ := Except.map_eq_ok_iff.mp translated
  have reads : table.Reads setting.schema (Store.tableRows table rows) := by
    obtain ⟨nodes, ofTable, _⟩ := Except.map_eq_ok_iff.mp ((Forest.ofRows_ofTable known _).symm.trans made)
    exact .of_rowsNodes known (sound table.name table known).2.named single ofTable
  have areRead : Forest.AreRead setting.schema
      ((∅ : TableRows).insert table.name (Store.tableRows table rows)) := by
    intro name keyed stored
    rw [ByName.getElem?_insert] at stored
    by_cases own : table.name = name
    · rw [if_pos own] at stored
      cases stored
      exact ⟨table, own, reads⟩
    · rw [if_neg own, Std.ExtTreeMap.getElem?_empty] at stored
      cases stored
  obtain ⟨again, madeAgain, shaped, held⟩ := Forest.ofRows_spec areRead
  cases made.symm.trans madeAgain
  unfold Document.IsShaped Document.row?
  rw [Document.trees_ofForest, Forest.bare_tree]
  refine ⟨shaped, fun key => ?_⟩
  rw [held table known key, TableRows.keyed, ByName.getElem?_insert, if_pos rfl, Option.getD_some,
    Store.getElem?_tableRows]

namespace Session

variable {engine : Engine}

/-- A new session follows no batches. -/
theorem isFollowed_start (sound : engine.setting.schema.IsSound) {id : String} {world : World}
    {batches : List TimedBatch} (fresh : IsFresh engine world batches) :
    IsFollowed engine world [] { id } world where
  live := nofun
  rows := rfl
  ages _ := rfl
  staged _ _ := rfl
  shaped := Document.isShaped_empty
  held table _ key := congrArg Option.isSome (Document.row?_empty table key)
  follows table known single document cached := by
    obtain ⟨entry, registered, held⟩ := Option.bind_eq_some_iff.mp cached
    obtain ⟨⟨built, own, isBuilt⟩, _⟩ := fresh table.name entry registered
    cases held.symm.trans own
    exact isBuilt.spec sound known single

/-- The groups of a prepared batch of edits of rows with single-valued keys are those of the batch
regrouped by operation. -/
theorem groups_of_prepared (sound : engine.setting.schema.IsSound) {staged prepared : Staged}
    {edits : List Edit} {world : World} {keyed : List KeyedEdit} {groups : List Group}
    (isPrepared : IsPrepared engine staged edits world keyed prepared groups)
    (single : ∀ edit ∈ edits, edit.ActsOnSingle engine.setting.schema) :
    (∀ group ∈ groups, group.IsSingle engine.setting.schema) ∧
      (∀ table rowKey, Group.editsIn groups table rowKey =
        engine.setting.schema.regrouped table rowKey edits) ∧
      ∀ table rowKey, prepared.requests.edits table rowKey =
        staged.requests.edits table rowKey ++
          engine.setting.schema.submitted table rowKey edits := by
  have resolved := Schema.resolved_eq isPrepared.resolved
  have checked : ∀ one ∈ keyed, one.edit.validateNow = true := fun one member =>
    (single one.edit (isPrepared.isSound_of_mem sound member).2).1
  have all : keyed.filter (fun one => one.edit.validateNow) = keyed :=
    List.filter_eq_self.mpr checked
  have noContext : keyed.filter (fun one => !one.edit.validateNow) = [] :=
    List.filter_eq_nil_iff.mpr fun one member => by simp [checked one member]
  have judged := isPrepared.judged
  rw [all] at judged
  refine ⟨fun group member => ?_, fun table rowKey => ?_, fun table rowKey => ?_⟩
  · obtain ⟨⟨operation, rows⟩, inside, before, _, isJudged⟩ :=
      Except.exists_of_mem_right judged member
    obtain ⟨⟨one, given, operated⟩, same⟩ := Group.mem_byOperation_iff.mp inside
    have keyedSound : ∀ one ∈ keyed, one.IsSound engine.setting.schema := fun _ member =>
      (isPrepared.isSound_of_mem sound member).1
    have tables : ∀ one ∈ keyed, one.table.IsSingle := by
      intro one member
      obtain ⟨isSound, submitted⟩ := isPrepared.isSound_of_mem sound member
      exact (single one.edit submitted).2.2 (one.table, one.rowKey) isSound.owned
    refine ⟨?_, ?_, ?_⟩
    · rw [isJudged.operated, ← operated]
      exact (single one.edit (isPrepared.isSound_of_mem sound given).2).2.1
    · rw [isJudged.gathered.trans same]
      exact Group.areRead_rowsOf sound keyedSound tables operation
    · rw [isJudged.gathered]
      exact isJudged.translated
  · rw [Schema.regrouped, resolved]
    refine Group.editsIn_eq (judged.imp fun rows group given => ?_) table rowKey
    obtain ⟨_, _, isJudged⟩ := given
    exact ⟨isJudged.operated, isJudged.gathered⟩
  · rw [isPrepared.edits_eq, all, noContext, Schema.submitted, resolved]
    rfl

/-- Preparing a batch leaves documents that are there and have not expired. -/
theorem entries_eq_of_onlyRead {world later : World} (read : world.OnlyRead engine.setting later)
    (current : ∀ (name : String) (entry : CacheEntry), world.cache.entries[name]? = some entry →
      entry.isExpired world.clock = false ∧ entry.document ≠ none) (name : String) :
    later.cache.entries[name]? = world.cache.entries[name]? := by
  rcases read.entries name with same | ⟨earlier, _, registered, _, _, _⟩
  · exact same
  · obtain ⟨lasts, there⟩ := current name earlier registered
    rw [registered]
    exact read.document_eq registered lasts there

/-- Entries made and lasting as those of a fresh cache have documents and have not expired. -/
theorem current_of_ages {start world : World} {batches : List TimedBatch} {next : TimedBatch}
    (fresh : IsFresh engine start batches) (member : next ∈ batches)
    (ages : ∀ name, world.cache.age? name = start.cache.age? name) {name : String}
    {entry : CacheEntry} (registered : world.cache.entries[name]? = some entry) :
    entry.isExpired next.time = false ∧ entry.document ≠ none := by
  have age := ages name
  unfold Cache.age? at age
  rw [registered] at age
  obtain ⟨first, held, same⟩ := Option.map_eq_some_iff.mp age.symm
  obtain ⟨⟨document, own, _⟩, lasts⟩ := fresh name first held
  simp only [Prod.mk.injEq] at same
  refine ⟨?_, ?_⟩
  · have unexpired := lasts next member
    unfold CacheEntry.isExpired at unexpired ⊢
    rw [← same.1, ← same.2.1]
    exact unexpired
  · intro none
    rw [own, none] at same
    cases same.2.2

/-- One more accepted batch is followed. -/
theorem IsFollowed.batch (sound : engine.setting.schema.IsSound) {start world : World}
    {batches : List TimedBatch} {session : Session} {next : TimedBatch}
    (followed : IsFollowed engine start batches session world)
    (fresh : IsFresh engine start (batches ++ [next]))
    (single : ∀ edit ∈ next.edits, edit.ActsOnSingle engine.setting.schema)
    (accepted : (World.run (session.validate engine next.edits)
      { world with clock := next.time }).1.1.isOk) :
    IsFollowed engine start (batches ++ [next])
      (World.run (session.validate engine next.edits) { world with clock := next.time }).1.2
      (World.run (session.validate engine next.edits) { world with clock := next.time }).2 := by
  obtain ⟨staged, groups, _, later, _, _, prepared, laid, ran⟩ := exists_steps_of_accepted accepted
  have read := (isReading_prepare engine session.staged next.edits).onlyRead prepared
  have entries := entries_eq_of_onlyRead read fun name entry registered =>
    current_of_ages fresh (List.mem_append_right _ List.mem_cons_self) followed.ages registered
  obtain ⟨keyed, isPrepared⟩ := isPrepared_of_prepare prepared
  obtain ⟨groupsSingle, regrouped, recorded⟩ := groups_of_prepared sound isPrepared single
  have follows : later.cache.Follows engine.setting.schema fun table key =>
      (batches.flatMap fun batch => engine.setting.schema.regrouped table.name key
        batch.edits).foldl (StagedEdit.takenBy table) start.store.rows[table.storeKey key]? := by
    intro table known isSingle document cached
    unfold Cache.document? at cached
    rw [entries] at cached
    exact followed.follows table known isSingle document cached
  obtain ⟨document, last, committed, shaped, held, store, clock, ages, lastFollows⟩ :=
    Group.commitAll_spec groupsSingle followed.shaped follows
  cases laid.symm.trans committed
  rw [ran]
  refine ⟨nofun, ?_, fun name => ?_, fun table rowKey => ?_, shaped.compactIfSparse,
    fun table known key => ?_, ?_⟩
  · rw [store, read.rows]
    exact followed.rows
  · rw [← followed.ages, ages]
    unfold Cache.age?
    rw [entries]
  · rw [List.flatMap_append, List.flatMap_singleton, recorded, followed.staged]
  · rw [Document.row?_compactIfSparse, held table known, followed.held table known,
      List.flatMap_append, List.foldl_append, List.flatMap_singleton, regrouped]
  · convert lastFollows using 1
    funext table key
    rw [List.flatMap_append, List.foldl_append, List.flatMap_singleton, regrouped]

private theorem isFollowed_of_reaches (sound : engine.setting.schema.IsSound) {id : String}
    {world later : World} {batches : List TimedBatch} {session : Session}
    (run : Reaches engine { id } world batches session later) (fresh : IsFresh engine world batches)
    (single : ∀ batch ∈ batches, ∀ edit ∈ batch.edits,
      edit.ActsOnSingle engine.setting.schema) :
    IsFollowed engine world batches session later := by
  induction run with
  | start => exact isFollowed_start sound fresh
  | batch run next accepted ih =>
      rename_i batches _ _
      have earlier : ∀ batch ∈ batches, batch ∈ batches ++ [next] := fun batch member =>
        List.mem_append_left _ member
      have followed := ih (fun name entry registered => ⟨(fresh name entry registered).1,
        fun batch member => (fresh name entry registered).2 batch (earlier batch member)⟩)
        fun batch member => single batch (earlier batch member)
      exact followed.batch sound fresh
        (single next (List.mem_append_right _ List.mem_cons_self)) accepted

/-- Whether the documents say of a row what the net effect of its edits says: they hold no list
instance of a row that is gone, and one of a row that is there, which in a cached table is what the
fields of the row are translated to. -/
def FollowsNet (session : Session) (cache : Cache) (table : TableSchema) (rowKey : String) : Prop :=
  match session.staged.requests.state? table.name rowKey with
  | some .deleted => session.document.instancesOf table.name rowKey = [] ∧
      ∀ document, cache.document? table.name = some document →
        document.instancesOf table.name rowKey = []
  | some (.present fields) => session.document.instancesOf table.name rowKey ≠ [] ∧
      ∀ document, cache.document? table.name = some document →
        table.rowNodes rowKey fields = .ok (document.instancesOf table.name rowKey)
  | _ => True

/-- Whether regrouping the edits of a row keeps their net effect: a row that they remove in order is
neither held nor stored after the regrouped ones, and one that they leave with known fields is held and,
if its table is cached, translated to the same. -/
def KeepsNet (table : TableSchema) (rowKey : String) (stored : Option Fields) (isCached : Prop)
    (submitted regrouped : List StagedEdit) : Prop :=
  match StagedEdits.netState submitted with
  | some .deleted => regrouped.foldl StagedEdit.holdsAfter false = false ∧
      (isCached → regrouped.foldl (StagedEdit.takenBy table) stored = none)
  | some (.present fields) => regrouped.foldl StagedEdit.holdsAfter false = true ∧
      (isCached → ∃ taken, regrouped.foldl (StagedEdit.takenBy table) stored = some taken ∧
        table.rowNodes rowKey taken = table.rowNodes rowKey fields)
  | _ => True

/-- The key of a row with edits is read by its table. -/
theorem exists_split_of_submitted {schema : Schema} (sound : schema.IsSound) {table : TableSchema}
    (known : schema.table? table.name = some table) {rowKey : String} {edits : List Edit}
    (touched : schema.submitted table.name rowKey edits ≠ []) :
    ∃ components, table.splitKey rowKey = some components := by
  obtain ⟨staged, rest, same⟩ := List.exists_cons_of_ne_nil touched
  have member : staged ∈ schema.submitted table.name rowKey edits := same ▸ List.mem_cons_self
  obtain ⟨keyed, inside, _⟩ := List.mem_map.mp member
  obtain ⟨resolved, own⟩ := List.mem_filter.mp inside
  obtain ⟨edit, _, found⟩ := List.mem_filterMap.mp resolved
  cases outcome : schema.keyed edit with
  | error rejection =>
      rw [outcome] at found
      cases found
  | ok answer =>
      rw [outcome] at found
      cases found
      have keyedSound := (Schema.isSound_of_keyed sound outcome).1
      have ofRow : keyed.table.name = table.name ∧ keyed.rowKey = rowKey := by
        simpa [Group.isOfRow] using own
      have sameTable := Schema.eq_of_name_eq keyedSound.known known ofRow.1
      exact ⟨keyed.keyComponents, sameTable ▸ ofRow.2 ▸ keyedSound.split⟩

/-- A row with a net effect, of single-valued key components, is translated to one list instance. -/
theorem rowNodes_of_netState {schema : Schema} (sound : schema.IsSound) {table : TableSchema}
    (known : schema.table? table.name = some table) (single : table.IsSingle) {rowKey : String}
    {batches : List TimedBatch} {state : RowState}
    (net : StagedEdits.netState (batches.flatMap fun batch =>
      schema.submitted table.name rowKey batch.edits) = some state) (fields : Fields) :
    table.rowNodes rowKey fields = .ok [table.rowNode rowKey fields] := by
  have touched : ∃ batch ∈ batches, schema.submitted table.name rowKey batch.edits ≠ [] := by
    by_contra untouched
    push Not at untouched
    rw [List.flatMap_eq_nil_iff.mpr untouched] at net
    cases net
  obtain ⟨batch, _, touched⟩ := touched
  obtain ⟨components, split⟩ := exists_split_of_submitted sound known touched
  exact single.rowNodes_eq (sound table.name table known).2.named split fields

section

variable {table : TableSchema} {rowKey : String} {cached : Option Document} {taken : Option Fields}

/-- A cached document that holds what the edits leave of a row holds no list instance of it exactly if they
leave nothing. -/
theorem followsDeleted_iff (follows : ∀ document, cached = some document →
      document.instancesOf table.name rowKey = (taken.map (table.rowNode rowKey)).toList) :
    (∀ document, cached = some document → document.instancesOf table.name rowKey = []) ↔
      (cached.isSome → taken = none) := by
  cases cached with
  | none => simp
  | some document => simp [follows document rfl]

/-- A cached document that holds what the edits leave of a row holds what some fields are translated to
exactly if they leave fields that are translated to the same. -/
theorem followsPresent_iff (translated : ∀ fields, table.rowNodes rowKey fields =
      .ok [table.rowNode rowKey fields])
    (follows : ∀ document, cached = some document →
      document.instancesOf table.name rowKey = (taken.map (table.rowNode rowKey)).toList)
    {fields : Fields} :
    (∀ document, cached = some document →
        table.rowNodes rowKey fields = .ok (document.instancesOf table.name rowKey)) ↔
      (cached.isSome → ∃ left, taken = some left ∧
        table.rowNodes rowKey left = table.rowNodes rowKey fields) := by
  cases cached with
  | none => simp
  | some document =>
      have held := follows document rfl
      cases taken with
      | none => simp [held, translated]
      | some left => simp [held, translated, eq_comm]

end

/-- After accepted batches that change rows with single-valued keys, the documents follow the edits of
each row regrouped by operation. So they say what the net effect of the edits says exactly if
regrouping keeps it. -/
theorem Reaches.followsNet_iff [PatternReader] {modules : List ModuleDecl} {delimiter : String}
    (built : Schema.build modules delimiter = .ok engine.setting.schema) {id : String}
    {world later : World} {batches : List TimedBatch} {session : Session}
    (run : Reaches engine { id } world batches session later) (fresh : IsFresh engine world batches)
    (single : ∀ batch ∈ batches, ∀ edit ∈ batch.edits, edit.ActsOnSingle engine.setting.schema)
    {table : TableSchema} (known : engine.setting.schema.table? table.name = some table)
    (isSingle : table.IsSingle) (rowKey : String) :
    session.FollowsNet later.cache table rowKey ↔
      KeepsNet table rowKey world.store.rows[table.storeKey rowKey]?
        (later.cache.document? table.name).isSome
        (batches.flatMap fun batch => engine.setting.schema.submitted table.name rowKey batch.edits)
        (batches.flatMap fun batch =>
          engine.setting.schema.regrouped table.name rowKey batch.edits) := by
  have sound := Schema.isSound_of_build built
  have followed := isFollowed_of_reaches sound run fresh single
  have held := followed.held table known rowKey
  have cached : ∀ document, later.cache.document? table.name = some document →
      document.instancesOf table.name rowKey = (((batches.flatMap fun batch =>
        engine.setting.schema.regrouped table.name rowKey batch.edits).foldl
          (StagedEdit.takenBy table) world.store.rows[table.storeKey rowKey]?).map
            (table.rowNode rowKey)).toList := by
    intro document there
    obtain ⟨shaped, rows⟩ := followed.follows table known isSingle document there
    rw [Document.instancesOf_eq shaped known, rows]
  unfold FollowsNet KeepsNet
  rw [StagedEdits.state?, followed.staged, Document.instancesOf_eq followed.shaped known, ← held]
  cases net : StagedEdits.netState (batches.flatMap fun batch =>
      engine.setting.schema.submitted table.name rowKey batch.edits) with
  | none => exact Iff.rfl
  | some state =>
      cases state with
      | overlay patch => exact Iff.rfl
      | deleted => exact and_congr (by simp) (followsDeleted_iff cached)
      | present fields =>
          have translated := rowNodes_of_netState sound known isSingle net
          exact and_congr (by simp [Option.isSome_iff_ne_none]) (followsPresent_iff translated cached)

/-- An engine with a table of rows with a field. -/
def plainEngine : Engine :=
  Engine.ofModules [{ name := "m", tables := [plainTable] }]

/-- The rows of a store with one row. -/
def plainRows : TableRows :=
  .single "PORT" "y" ∅

/-- A world whose store holds a row and whose cache holds its table. -/
def plainWorld : World where
  store := { database := 0, rows := (∅ : ByName Fields).insert "PORT|y" ∅ }
  cache.entries := (∅ : ByName CacheEntry).insert "PORT" {
    document := (Document.ofRows plainEngine.setting.schema plainRows).toOption
    createdAt := 0
    expirySecs := 0 }

theorem exists_plainTable : ∃ table,
    plainEngine.setting.schema.table? "PORT" = some table ∧ table.name = "PORT" ∧
      table.IsSingle ∧ Store.tableRows table plainWorld.store.rows = (∅ : KeyedRows).insert "y" ∅ ∧
      table.storeKey "x" = "PORT|x" := by
  have facts : (plainEngine.setting.schema.table? "PORT").any fun table =>
      table.name = "PORT" ∧ table.IsSingle ∧
        Store.tableRows table plainWorld.store.rows = (∅ : KeyedRows).insert "y" ∅ ∧
        table.storeKey "x" = "PORT|x" := by
    decide +kernel
  obtain ⟨table, known, holds⟩ := (Option.any_eq_true _ _).mp facts
  exact ⟨table, known, of_decide_eq_true holds⟩

private theorem isFresh_plainWorld (batches : List TimedBatch) :
    IsFresh plainEngine plainWorld batches := by
  obtain ⟨table, known, _, _, stored, _⟩ := exists_plainTable
  have translated : (Document.ofRows plainEngine.setting.schema plainRows).isOk := by
    decide +kernel
  obtain ⟨document, made⟩ := Except.exists_of_isOk translated
  intro name entry registered
  unfold plainWorld at registered
  rw [ByName.getElem?_insert] at registered
  by_cases own : "PORT" = name
  · rw [if_pos own] at registered
    cases registered
    refine ⟨⟨document, ?_, table, own ▸ known, ?_⟩, fun _ _ => rfl⟩
    · rw [made]
      rfl
    · rw [stored, ← own]
      exact made
  · rw [if_neg own, Std.ExtTreeMap.getElem?_empty] at registered
    cases registered

/-- A batch that creates a row, deletes it and creates it again. -/
def createTwice : TimedBatch where
  time := 0
  edits := [
    { operation := .create, key := "PORT|x", fields := (∅ : Fields).insert "mtu" "1" },
    { operation := .delete, key := "PORT|x" },
    { operation := .create, key := "PORT|x", fields := (∅ : Fields).insert "mtu" "2" }]

/-- A row that one batch creates, deletes and creates again is there by the net effect of its edits and
missing from the documents. -/
theorem createTwice_not_followsNet :
    ∃ table session later, plainEngine.setting.schema.table? "PORT" = some table ∧ table.IsSingle ∧
      (∀ edit ∈ createTwice.edits, edit.ActsOnSingle plainEngine.setting.schema) ∧
      IsFresh plainEngine plainWorld [createTwice] ∧
      Reaches plainEngine { id := "s" } plainWorld [createTwice] session later ∧
      ¬session.FollowsNet later.cache table "x" := by
  obtain ⟨table, known, named, isSingle, _⟩ := exists_plainTable
  obtain ⟨session, later, run, present, gone⟩ : ∃ session later,
      Reaches plainEngine { id := "s" } plainWorld [createTwice] session later ∧
        (session.staged.requests.state? "PORT" "x").any RowState.isPresent ∧
        session.document.instancesOf "PORT" "x" = [] :=
    ⟨_, _, .batch .start createTwice (by decide +kernel), by decide +kernel, by decide +kernel⟩
  refine ⟨table, session, later, known, isSingle, by decide +kernel, isFresh_plainWorld _, run,
    fun follows => ?_⟩
  obtain ⟨state, net, present⟩ := (Option.any_eq_true _ _).mp present
  cases state with
  | present fields =>
      unfold FollowsNet at follows
      rw [named, net] at follows
      exact follows.1 gone
  | overlay patch => cases present
  | deleted => cases present

/-- A batch that creates a row. -/
def createPort : TimedBatch where
  time := 0
  edits := [{ operation := .create, key := "PORT|x", fields := (∅ : Fields).insert "mtu" "1" }]

/-- A batch that changes the row. -/
def changePort : TimedBatch where
  time := 9
  edits := [{ operation := .update, key := "PORT|x", fields := (∅ : Fields).insert "mtu" "2" }]

/-- A row that one batch creates and the next one changes is followed. -/
theorem changePort_followsNet :
    ∃ table session later, plainEngine.setting.schema.table? table.name = some table ∧
      table.IsSingle ∧ IsFresh plainEngine plainWorld [createPort, changePort] ∧
      Reaches plainEngine { id := "s" } plainWorld [createPort, changePort] session later ∧
      session.FollowsNet later.cache table "x" := by
  obtain ⟨table, known, named, isSingle, _, keyed⟩ := exists_plainTable
  have faultless : (Schema.build [{ name := "m", tables := [plainTable] }]
      Schema.usualDelimiter).isOk := by
    decide +kernel
  have single : ∀ batch ∈ [createPort, changePort], ∀ edit ∈ batch.edits,
      edit.ActsOnSingle plainEngine.setting.schema := by
    decide +kernel
  have taken : (plainEngine.setting.schema.table? "PORT").any fun table =>
      ([createPort, changePort].flatMap fun batch =>
        plainEngine.setting.schema.regrouped "PORT" "x" batch.edits).foldl
          (StagedEdit.takenBy table) plainWorld.store.rows["PORT|x"]? =
        some ((∅ : Fields).insert "mtu" "2") := by
    decide +kernel
  rw [known] at taken
  have sameTable : plainEngine.setting.schema.table? table.name = some table := named.symm ▸ known
  obtain ⟨session, later, run⟩ : ∃ session later,
      Reaches plainEngine { id := "s" } plainWorld [createPort, changePort] session later :=
    ⟨_, _, .batch (.batch .start createPort (by decide +kernel)) changePort (by decide +kernel)⟩
  refine ⟨table, session, later, sameTable, isSingle, isFresh_plainWorld _, run, ?_⟩
  refine (Reaches.followsNet_iff (Schema.build_eq_ofModules faultless) run (isFresh_plainWorld _)
    single sameTable isSingle "x").mpr ?_
  obtain ⟨fields, net, rfl⟩ : ∃ fields, StagedEdits.netState
        ([createPort, changePort].flatMap fun batch =>
          plainEngine.setting.schema.submitted "PORT" "x" batch.edits) = some (.present fields) ∧
      fields = (∅ : Fields).insert "mtu" "2" :=
    ⟨_, rfl, by decide +kernel⟩
  unfold KeepsNet
  rw [named, keyed, net]
  exact ⟨by decide +kernel, fun _ => ⟨_, of_decide_eq_true taken, rfl⟩⟩

end Session

end ConfigVetting
