import ConfigVetting.Proofs.Session.Covering
import ConfigVetting.Proofs.Session.Preparation
import ConfigVetting.Proofs.Staging.Stepwise

/-! # The data that a subject depends on

All rows that are loaded for the checks of a subject are rows of the session's view. So a value that the
data holds in a component of a key stands in the key of a row that the session sees
(`ConfigVetting.Dependency.sees_of_ofSubject`), be it loaded from the store or from the cache.
-/

namespace ConfigVetting

namespace Dependency

/-- The row keys to fetch after one more staged row: it is fetched if it is only changed. -/
def withKey (keys : Names) (row : String × RowState) : Names :=
  match row.2 with
  | .overlay _ => keys.insert row.1
  | _ => keys.erase row.1

private theorem mem_withKey_iff {keys : Names} {row : String × RowState} {rowKey : String} :
    rowKey ∈ withKey keys row ↔
      (∃ patch, row = (rowKey, .overlay patch)) ∨ row.1 ≠ rowKey ∧ rowKey ∈ keys := by
  obtain ⟨own, state⟩ := row
  cases state with
  | overlay patch =>
      change rowKey ∈ keys.insert own ↔ _
      rw [Std.ExtTreeSet.mem_insert, Std.LawfulEqCmp.compare_eq_iff_eq]
      by_cases same : own = rowKey <;> simp [same]
  | present fields =>
      change rowKey ∈ keys.erase own ↔ _
      rw [Std.ExtTreeSet.mem_erase, ne_eq, Std.LawfulEqCmp.compare_eq_iff_eq]
      simp
  | deleted =>
      change rowKey ∈ keys.erase own ↔ _
      rw [Std.ExtTreeSet.mem_erase, ne_eq, Std.LawfulEqCmp.compare_eq_iff_eq]
      simp

private theorem keysToFetch_eq (keys : Names) (states : ByName RowState) :
    keysToFetch keys states = (states.toList.foldl withKey keys).toList := rfl

/-- The row keys to fetch are those of the rows that the staged edits change, and the wanted ones of which
they tell nothing. -/
theorem mem_keysToFetch_iff {keys : Names} {states : ByName RowState} {rowKey : String} :
    rowKey ∈ keysToFetch keys states ↔
      (∃ patch, states[rowKey]? = some (.overlay patch)) ∨
        states[rowKey]? = none ∧ rowKey ∈ keys := by
  have each : ∀ (rows : List (String × RowState)) (keys : Names), (rows.map Prod.fst).Nodup →
      (rowKey ∈ rows.foldl withKey keys ↔ (∃ patch, (rowKey, .overlay patch) ∈ rows) ∨
        rowKey ∉ rows.map Prod.fst ∧ rowKey ∈ keys) := by
    intro rows
    induction rows with
    | nil => simp
    | cons row rows ih =>
        intro keys apart
        rw [List.map_cons, List.nodup_cons] at apart
        rw [List.foldl_cons, ih _ apart.2, mem_withKey_iff]
        by_cases own : row.1 = rowKey
        · -- The row decides alone, for no later one has its key.
          subst own
          have none : ∀ state, (row.1, state) ∉ rows := fun state later =>
            apart.1 (List.mem_map.mpr ⟨_, later, rfl⟩)
          obtain ⟨key, state⟩ := row
          simp [none, apart.1, eq_comm]
        · have other : ∀ state : RowState, (rowKey, state) ≠ row := fun state same =>
            own (congrArg Prod.fst same).symm
          have changed : ∀ patch, row ≠ (rowKey, .overlay patch) := fun patch => (other _).symm
          simp [other, changed, own, Ne.symm own]
  rw [keysToFetch_eq, Std.ExtTreeSet.mem_toList, each _ _ states.nodup_toList]
  have untold : rowKey ∉ states.toList.map Prod.fst ↔ states[rowKey]? = none := by
    rw [List.mem_map, Option.eq_none_iff_forall_ne_some]
    constructor
    · exact fun outside state told => outside ⟨_, Std.ExtTreeMap.mem_toList_iff_getElem?_eq_some.mpr
        told, rfl⟩
    · rintro none ⟨⟨key, state⟩, member, rfl⟩
      exact none state (Std.ExtTreeMap.mem_toList_iff_getElem?_eq_some.mp member)
  simp only [Std.ExtTreeMap.mem_toList_iff_getElem?_eq_some, untold]

/-- Rows with one more that the session created, if it did. -/
def withCreated (rows : KeyedRows) (row : String × RowState) : KeyedRows :=
  match row.2 with
  | .present fields => rows.insert row.1 fields
  | _ => rows

/-- Rows with one more that was fetched, if it is stored. -/
def withFetched (states : ByName RowState) (rows : KeyedRows) (row : String × Option Fields) :
    KeyedRows :=
  match row.2 with
  | none => rows
  | some fields =>
    match states[row.1]? with
    | some (.overlay patch) => rows.insert row.1 (patch.apply fields)
    | _ => rows.insert row.1 fields

private theorem rowsAfter_eq (states : ByName RowState) (fetched : List (String × Option Fields)) :
    rowsAfter states fetched =
      fetched.foldl (withFetched states) (states.toList.foldl withCreated ∅) := rfl

private theorem getElem?_withCreated (rowKey : String) (rows : KeyedRows) (row : String × RowState) :
    (withCreated rows row)[rowKey]? =
      (if row.1 = rowKey then row.2.apply none else none).or rows[rowKey]? := by
  obtain ⟨own, state⟩ := row
  cases state with
  | present fields =>
      change (rows.insert own fields)[rowKey]? = _
      rw [ByName.getElem?_insert]
      by_cases same : own = rowKey <;> simp [same, RowState.apply]
  | overlay patch => simp [withCreated, RowState.apply]
  | deleted => simp [withCreated, RowState.apply]

/-- The fields that a fetched row is loaded with. -/
def fieldsLoaded (states : ByName RowState) (rowKey : String) (fields : Fields) : Fields :=
  match states[rowKey]? with
  | some (.overlay patch) => patch.apply fields
  | _ => fields

private theorem getElem?_withFetched (states : ByName RowState) (rowKey : String) (rows : KeyedRows)
    (row : String × Option Fields) :
    (withFetched states rows row)[rowKey]? =
      (if row.1 = rowKey then row.2.map (fieldsLoaded states rowKey) else none).or rows[rowKey]? := by
  obtain ⟨own, fields⟩ := row
  cases fields with
  | none => simp [withFetched]
  | some fields =>
      have inserted : withFetched states rows (own, some fields) =
          rows.insert own (fieldsLoaded states own fields) := by
        unfold withFetched fieldsLoaded
        simp only
        split <;> rfl
      rw [inserted, ByName.getElem?_insert]
      by_cases same : own = rowKey <;> simp [same]

/-- The last of what is had by one name in a list of names. -/
theorem getLast?_filterMap_own {α : Type} {names : List String} (name : String)
    (own : String → Option α) :
    (names.filterMap fun other => if other = name then own other else none).getLast? =
      if name ∈ names then own name else none := by
  induction names with
  | nil => rfl
  | cons head names ih =>
      rw [List.filterMap_cons]
      by_cases same : head = name
      · subst same
        rw [if_pos rfl, if_pos List.mem_cons_self]
        cases held : own head with
        | none =>
            rw [held, ite_self] at ih
            exact ih
        | some value =>
            rw [held] at ih
            simp only [List.getLast?_cons, ih]
            split <;> rfl
      · rw [if_neg same]
        simp only [List.mem_cons, Ne.symm same, false_or]
        exact ih

/-- Rows that are loaded are as the staged edits leave the wanted ones, and those they tell of. -/
theorem getElem?_rowsAfter (states : ByName RowState) (keys : Names) (stored : String → Option Fields)
    (rowKey : String) :
    (rowsAfter states ((keysToFetch keys states).map fun key => (key, stored key)))[rowKey]? =
      match states[rowKey]? with
      | some state => state.apply (stored rowKey)
      | none => if rowKey ∈ keys then stored rowKey else none := by
  have fetched : (((keysToFetch keys states).map fun key => (key, stored key)).filterMap fun row =>
      if row.1 = rowKey then row.2.map (fieldsLoaded states rowKey) else none).getLast? =
        if rowKey ∈ keysToFetch keys states then (stored rowKey).map (fieldsLoaded states rowKey)
        else none := by
    rw [List.filterMap_map]
    exact getLast?_filterMap_own rowKey fun key => (stored key).map (fieldsLoaded states rowKey)
  have created : (states.toList.filterMap fun row =>
      if row.1 = rowKey then row.2.apply none else none).getLast? =
        states[rowKey]?.bind (RowState.apply none) := by
    rw [List.filterMap_eq_flatMap_toList, ByName.flatMap_toList_of_own states fun entry other => by
      rw [if_neg other]
      rfl]
    cases states[rowKey]? with
    | none => rfl
    | some state =>
        rw [Option.toList_some, List.flatMap_singleton, if_pos rfl, Option.bind_some]
        cases state.apply none <;> rfl
  rw [rowsAfter_eq, ByName.getElem?_foldl_of_step (getElem?_withFetched states rowKey),
    ByName.getElem?_foldl_of_step (getElem?_withCreated rowKey), fetched, created]
  have wanted : rowKey ∈ keysToFetch keys states ↔ _ := mem_keysToFetch_iff
  unfold fieldsLoaded
  cases told : states[rowKey]? with
  | none =>
      rw [told] at wanted
      by_cases inside : rowKey ∈ keys <;> simp [wanted, inside]
  | some state =>
      rw [told] at wanted
      cases state <;> simp [wanted, RowState.apply]

/-- The staged states of a table are those of its rows. -/
theorem getElem?_statesOf (staged : StagedEdits) (table rowKey : String) :
    (statesOf staged table)[rowKey]? = staged.state? table rowKey := by
  have same : statesOf staged table = (staged.rows table).foldl
      (fun states row => states.insert row.1 row.2) ∅ := rfl
  have found : ∀ state, (statesOf staged table)[rowKey]? = some state →
      staged.state? table rowKey = some state := by
    intro state held
    rw [same] at held
    rcases @ByName.mem_of_foldl_insert _ _ Prod.fst Prod.snd _ _ _ _ held with
      ⟨row, member, rfl, rfl⟩ | nothing
    · exact StagedEdits.mem_rows_iff.mp member
    · simp at nothing
  cases net : staged.state? table rowKey with
  | none =>
      cases held : (statesOf staged table)[rowKey]? with
      | none => rfl
      | some state => exact (net.symm.trans (found state held)).symm
  | some state =>
      have there : (statesOf staged table)[rowKey]?.isSome := by
        rw [same]
        exact @ByName.isSome_foldl_insert _ _ Prod.fst Prod.snd _ _ _
          (Or.inl ⟨(rowKey, state), StagedEdits.mem_rows_iff.mpr net, rfl⟩)
      obtain ⟨other, held⟩ := Option.isSome_iff_exists.mp there
      rw [held, ← net, found other held]

open WorldM

variable {source : Source} {world later : World} {document : Document} {table other : TableSchema}

/-- If something is fetched for each wanted row key, none is left unresolved. -/
theorem ofFetched_map (schema : Schema) (table : TableSchema) (states : ByName RowState)
    (wanted : List String) (answer : String → Option Fields) :
    ofFetched schema table states wanted (wanted.map answer) =
      Document.ofRows schema ((∅ : TableRows).insert table.name
        (rowsAfter states (wanted.map fun rowKey => (rowKey, answer rowKey)))) := by
  have resolved : resolve table wanted (wanted.map answer) =
      .ok (wanted.map fun rowKey => (rowKey, answer rowKey)) := by
    rw [resolve, List.length_map, List.drop_length, List.map_prod_left_eq_zip]
  rw [ofFetched, resolved]
  rfl

/-- The rows of a document that is loaded row by row are as the staged edits leave the wanted ones, and
those they tell of. -/
theorem exists_rows_of_loadRows {keys : Names} {states : ByName RowState}
    (accepted : (loadRows source table keys states).outcome world = (.ok document, later)) :
    ∃ rows, Document.ofRows source.setting.schema ((∅ : TableRows).insert table.name rows) =
        .ok document ∧
      ∀ rowKey : String, rows[rowKey]? =
        match states[rowKey]? with
        | some state => state.apply world.store.rows[table.storeKey rowKey]?
        | none => if rowKey ∈ keys then world.store.rows[table.storeKey rowKey]? else none := by
  obtain ⟨fetched, middle, asked, rest⟩ := outcome_bind_eq_ok_iff.mp accepted
  cases World.eq_of_outcome_askStore (Store.isRead_fetch _ _) asked
  rw [List.map_map] at rest
  refine ⟨_, ?_, getElem?_rowsAfter states keys fun key => world.store.rows[table.storeKey key]?⟩
  rw [← ofFetched_map]
  by_cases some : (!(keysToFetch keys states).isEmpty) = true
  · rw [if_pos some] at rest
    obtain ⟨_, _, _, made⟩ := outcome_bind_eq_ok_iff.mp rest
    exact (outcome_except_eq_ok_iff.mp made).1
  · rw [if_neg some] at rest
    exact (outcome_except_eq_ok_iff.mp rest).1

/-- The rows of a document of a whole table that is loaded from the store are those that the session sees. -/
theorem exists_rows_of_loadStored
    (accepted : (loadStored source table).outcome world = (.ok document, later)) :
    ∃ rows, Document.ofRows source.setting.schema ((∅ : TableRows).insert table.name rows) =
        .ok document ∧
      ∀ rowKey : String, rows[rowKey]? = source.staged.view world.store.rows table rowKey := by
  obtain ⟨keys, middle, listed, loaded⟩ := outcome_bind_eq_ok_iff.mp accepted
  cases World.eq_of_outcome_askStore (Store.isRead_keys _) listed
  have sameRows : middle.store.rows = world.store.rows :=
    ((IsReading.askStore (Store.isRead_keys _)).onlyRead listed :
      world.OnlyRead source.setting middle).rows
  obtain ⟨rows, translated, each⟩ := exists_rows_of_loadRows loaded
  refine ⟨rows, translated, fun rowKey => ?_⟩
  rw [each, sameRows, getElem?_statesOf]
  unfold StagedEdits.view StagedEdits.rowAfter
  cases source.staged.state? table.name rowKey with
  | some state => rfl
  | none =>
      refine ite_eq_left_iff.mpr fun unlisted => Eq.symm ?_
      refine Std.ExtTreeMap.getElem?_eq_none fun stored => unlisted ?_
      refine Names.mem_foldl_insert.mpr (Or.inl ?_)
      rw [List.map_id', List.mem_filterMap]
      exact ⟨_, Store.storeKey_mem_keysFrom_iff.mpr stored,
        TableSchema.rowKey?_eq_some_iff.mpr rfl⟩

end Dependency

/-- Whether a row that a session sees has a value in a component of its key. -/
def StagedEdits.Sees (staged : StagedEdits) (rows : ByName Fields) (table : TableSchema)
    (field value : String) : Prop :=
  ∃ rowKey, (staged.view rows table rowKey).isSome ∧ table.KeyHolds rowKey field value

namespace Dependency

open WorldM

variable {source : Source} {world later : World} {document : Document} {table other : TableSchema}
  {field value : String}

/-- What rows that are loaded have in their keys is seen, if the states that they are loaded with are
those of the staged edits as far as they are wanted. -/
theorem sees_of_loadRows (sound : source.setting.schema.IsSound)
    (known : source.setting.schema.table? table.name = some table) {keys : Names}
    {states : ByName RowState}
    (agrees : ∀ rowKey : String, states[rowKey]? = source.staged.state? table.name rowKey ∨
      states[rowKey]? = none ∧ rowKey ∉ keys)
    (accepted : (loadRows source table keys states).outcome world = (.ok document, later))
    (otherKnown : source.setting.schema.table? other.name = some other)
    (isKey : other.isKey field = true) (held : document.trees.Holds other.name field value) :
    source.staged.Sees world.store.rows other field value := by
  obtain ⟨rows, translated, loaded⟩ := exists_rows_of_loadRows accepted
  obtain ⟨rowKey, fields, row, said⟩ :=
    Document.exists_of_holds_ofRows sound translated otherKnown held
  rw [TableRows.keyed, ByName.getElem?_insert] at row
  by_cases same : table.name = other.name
  · cases Schema.eq_of_name_eq known otherKnown same
    rw [if_pos rfl, Option.getD_some] at row
    refine ⟨rowKey, ?_, said.keyHolds isKey⟩
    unfold StagedEdits.view StagedEdits.rowAfter
    have there : rows[rowKey]?.isSome := by
      rw [row]
      rfl
    rw [loaded] at there
    rcases agrees rowKey with same | ⟨untold, outside⟩
    · rw [same] at there
      cases net : source.staged.state? table.name rowKey with
      | some state => rwa [net] at there
      | none =>
          rw [net] at there
          simp only at there ⊢
          split at there
          · exact there
          · cases there
    · rw [untold] at there
      simp [outside] at there
  · rw [if_neg same] at row
    simp at row

private theorem sees_of_loadStored (sound : source.setting.schema.IsSound)
    (known : source.setting.schema.table? table.name = some table)
    (accepted : (loadStored source table).outcome world = (.ok document, later))
    (otherKnown : source.setting.schema.table? other.name = some other)
    (isKey : other.isKey field = true) (held : document.trees.Holds other.name field value) :
    source.staged.Sees world.store.rows other field value := by
  obtain ⟨keys, middle, listed, loaded⟩ := outcome_bind_eq_ok_iff.mp accepted
  have read : world.OnlyRead source.setting middle :=
    (IsReading.askStore (Store.isRead_keys _)).onlyRead listed
  rw [← read.rows]
  exact sees_of_loadRows sound known (fun rowKey => Or.inl (getElem?_statesOf _ _ _)) loaded
    otherKnown isKey held

/-- Laying the states of rows over a document one after another covers it by the live rows that are not
removed, and those that are created. -/
theorem isCovered_of_overlayRows {schema : Schema} (known : schema.table? table.name = some table)
    (sound : table.IsSound) {rows : List (String × RowState)} {live : String → Prop} {before after :
      Document}
    (covered : before.IsCovered table live)
    (laid : DocumentM.outcome (rows.forM fun row =>
      Document.overlayRow schema table row.1 row.2) before = (.ok (), after)) :
    after.IsCovered table fun rowKey =>
      live rowKey ∧ (rowKey, .deleted) ∉ rows ∨ ∃ fields, (rowKey, .present fields) ∈ rows := by
  induction rows generalizing live before with
  | nil =>
      cases laid
      exact covered.mono fun rowKey own => Or.inl ⟨own, List.not_mem_nil⟩
  | cons row rows ih =>
      obtain ⟨own, state⟩ := row
      obtain ⟨_, middle, stepped, rest⟩ := DocumentM.outcome_bind_eq_ok_iff.mp laid
      have first := Document.isCovered_of_overlayRow known sound covered stepped
      refine (ih first rest).mono fun rowKey allowed => ?_
      rcases allowed with ⟨live', kept⟩ | ⟨fields, later⟩
      · cases state with
        | deleted =>
            refine Or.inl ⟨live'.1, fun member => ?_⟩
            rcases List.mem_cons.mp member with same | later
            · exact live'.2 (congrArg Prod.fst same)
            · exact kept later
        | present fields =>
            rcases live' with before | rfl
            · refine Or.inl ⟨before, fun member => ?_⟩
              rcases List.mem_cons.mp member with same | later
              · cases same
              · exact kept later
            · exact Or.inr ⟨fields, List.mem_cons_self⟩
        | overlay patch =>
            refine Or.inl ⟨live', fun member => ?_⟩
            rcases List.mem_cons.mp member with same | later
            · cases same
            · exact kept later
      · exact Or.inr ⟨fields, List.mem_cons_of_mem _ later⟩

/-- What a whole table that is loaded has in its keys is seen, if the cached documents are covered by the
live rows, and the table joins plainly should it be cached. -/
theorem sees_of_loadWhole (sound : source.setting.schema.IsSound)
    (known : source.setting.schema.table? table.name = some table)
    (covered : world.cache.IsCovered source.setting.schema
      (source.staged.IsLive world.store.rows))
    (accepted : (loadWhole source table).outcome world = (.ok document, later))
    (otherKnown : source.setting.schema.table? other.name = some other)
    (joins : other.name ∈ world.cache.entries → other.JoinsPlainly)
    (isKey : other.isKey field = true) (held : document.trees.Holds other.name field value) :
    source.staged.Sees world.store.rows other field value := by
  unfold loadWhole at accepted
  by_cases cached : source.useCache = true
  · rw [if_pos cached] at accepted
    obtain ⟨found, middle, asked, rest⟩ := outcome_bind_eq_ok_iff.mp accepted
    have read : world.OnlyRead source.setting middle :=
      (Cache.isReading_read source.setting table.name).onlyRead asked
    cases found with
    | none =>
        rw [← read.rows]
        exact sees_of_loadStored sound known rest otherKnown isKey held
    | some before =>
        obtain ⟨changed, _⟩ := outcome_except_eq_ok_iff.mp rest
        have there := Cache.document?_of_read asked
        have registered : table.name ∈ middle.cache.entries := by
          obtain ⟨entry, own, _⟩ := Option.bind_eq_some_iff.mp there
          rw [Std.ExtTreeMap.mem_iff_isSome_getElem?, own]
          rfl
        have beforeCovered := covered.onlyRead read (fun _ _ stored => Or.inl stored) table known
          before there
        have laid : DocumentM.outcome ((source.staged.rows table.name).forM fun row =>
            Document.overlayRow source.setting.schema table row.1 row.2) before =
              (.ok (), document) := Document.outcome_of_changed changed
        have tableSound := (sound table.name table known).2
        have afterCovered := isCovered_of_overlayRows known tableSound beforeCovered laid
        obtain ⟨rfl, exists_live⟩ := afterCovered.exists_live known otherKnown
          (sound other.name other otherKnown).2 isKey held
        obtain ⟨rowKey, allowed, holds⟩ :=
          exists_live (joins ((World.Keeps.of_onlyRead read).registered _ registered))
        refine ⟨rowKey, ?_, holds⟩
        rcases allowed with ⟨live, kept⟩ | ⟨fields, created⟩
        · exact live.isSome_view fun net => kept (StagedEdits.mem_rows_iff.mpr net)
        · unfold StagedEdits.view StagedEdits.rowAfter
          rw [StagedEdits.mem_rows_iff.mp created]
          rfl
  · rw [if_neg cached] at accepted
    exact sees_of_loadStored sound known accepted otherKnown isKey held

/-- What is wanted of a table and loaded has in its keys what is seen. -/
theorem sees_of_load (sound : source.setting.schema.IsSound)
    (covered : world.cache.IsCovered source.setting.schema
      (source.staged.IsLive world.store.rows)) {name : String} {want : Want}
    (accepted : (load source name want).outcome world = (.ok document, later))
    (otherKnown : source.setting.schema.table? other.name = some other)
    (joins : other.name ∈ world.cache.entries → other.JoinsPlainly)
    (isKey : other.isKey field = true) (held : document.trees.Holds other.name field value) :
    source.staged.Sees world.store.rows other field value := by
  obtain ⟨table, middle, knowing, rest⟩ := outcome_bind_eq_ok_iff.mp accepted
  obtain ⟨found, unchanged⟩ := outcome_except_eq_ok_iff.mp knowing
  have known := Schema.knownTable_eq_ok_iff.mp found
  have named := (sound name table known).1
  subst named
  rw [unchanged] at rest
  cases want with
  | whole => exact sees_of_loadWhole sound known covered rest otherKnown joins isKey held
  | rows keys =>
      refine sees_of_loadRows sound known (fun rowKey => ?_) rest otherKnown isKey held
      rw [Std.ExtTreeMap.getElem?_filter', getElem?_statesOf]
      by_cases wanted : rowKey ∈ keys
      · left
        cases source.staged.state? table.name rowKey <;> simp [wanted]
      · right
        cases source.staged.state? table.name rowKey <;> simp [wanted]

/-- What the data that a subject depends on has in a component of a key stands in the key of a row that
the session sees, if the cached documents are covered by the live rows, and the table joins plainly should
it be cached. -/
theorem sees_of_ofSubject {σ : Type} {subject : Forest σ} (sound : source.setting.schema.IsSound)
    (covered : world.cache.IsCovered source.setting.schema
      (source.staged.IsLive world.store.rows))
    (accepted : (ofSubject source subject).outcome world = (.ok document, later))
    (otherKnown : source.setting.schema.table? other.name = some other)
    (joins : other.name ∈ world.cache.entries → other.JoinsPlainly)
    (isKey : other.isKey field = true) (held : document.trees.Holds other.name field value) :
    source.staged.Sees world.store.rows other field value := by
  obtain ⟨wants, first, wanting, assembled⟩ := outcome_bind_eq_ok_iff.mp accepted
  obtain ⟨_, unchanged⟩ := outcome_except_eq_ok_iff.mp wanting
  rw [unchanged] at assembled
  obtain ⟨last, _, loaded, noted⟩ := outcome_bind_eq_ok_iff.mp assembled
  obtain ⟨_, _, _, answered⟩ := outcome_bind_eq_ok_iff.mp noted
  cases answered
  have loading : ∀ (document : Document) (wanted : String × Want),
      (do return document.merge (← load source wanted.1 wanted.2).roots :
        WorldM Document).IsReading source.setting :=
    fun _ wanted => (isReading_load source wanted.1 wanted.2).bind fun _ => IsReading.pure _
  refine IsReading.foldlM_invariant loading (fun document =>
    document.trees.Holds other.name field value → source.staged.Sees world.store.rows other field value)
    (fun before wanted start after _ read earlier stepped => ?_) (World.OnlyRead.refl world) ?_ loaded
    held
  · obtain ⟨own, middle, loadedOwn, merged⟩ := outcome_bind_eq_ok_iff.mp stepped
    cases merged
    intro inside
    rcases Document.holds_of_merge inside with left | right
    · exact earlier left
    · have startCovered := covered.onlyRead read fun _ _ stored => Or.inl stored
      rw [← read.rows] at startCovered ⊢
      exact sees_of_load sound startCovered loadedOwn otherKnown (fun registered =>
        joins ((World.Keeps.of_onlyRead read).registered _ registered)) isKey right
  · rintro ⟨root, inside, _⟩
    cases inside

end Dependency

end ConfigVetting
