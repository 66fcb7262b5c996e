import ConfigVetting.Proofs.Document.Gathering
import ConfigVetting.Proofs.Document.Instances
import ConfigVetting.Proofs.Session.Dependent
import ConfigVetting.Proofs.Session.Ordering

/-! # What is loaded

What is wanted is loaded table by table and joined. Without the cache, each part holds the rows that are
wanted, as the session sees them (`ConfigVetting.Dependency.isPart_of_load`). Together the parts hold the
rows that are due, and a row that is loaded by its key first and once more with its table is joined to
itself (`ConfigVetting.Dependency.gathers_of_assemble`).
-/

namespace ConfigVetting

namespace Dependency

open WorldM Forest

variable {source : Source} {world later : World} {document : Document} {schema : Schema}
  {table : TableSchema} {wants : Wants} {view : TableSchema → String → Option Fields}

/-- Whether some nodes are the list instances of the rows of a table that are wanted and there. -/
def IsLoaded (table : TableSchema) (view : String → Option Fields) (want : Want)
    (nodes : Forest Unit) : Prop :=
  ∃ rows : KeyedRows, (∀ rowKey : String, rows[rowKey]? =
      if want.covers rowKey then view rowKey else none) ∧ table.rowsNodes rows = .ok nodes

/-- Whether some trees are those of a table that is loaded. -/
def IsPart (schema : Schema) (view : TableSchema → String → Option Fields) (load : String × Want)
    (trees : Forest Unit) : Prop :=
  ∃ table nodes, schema.table? table.name = some table ∧ table.name = load.1 ∧
    IsLoaded table (view table) load.2 nodes ∧ trees = table.forestOf nodes

/-- What is loaded without the cache are the rows that are wanted, as the session sees them. -/
theorem isPart_of_load (sound : source.setting.schema.IsSound) (uncached : source.useCache = false)
    {load : String × Want}
    (accepted : (Dependency.load source load.1 load.2).outcome world = (.ok document, later)) :
    IsPart source.setting.schema (source.staged.view world.store.rows) load document.trees := by
  obtain ⟨name, want⟩ := load
  obtain ⟨table, middle, knowing, rest⟩ := outcome_bind_eq_ok_iff.mp accepted
  obtain ⟨found, unchanged⟩ := outcome_except_eq_ok_iff.mp knowing
  have known := Schema.knownTable_eq_ok_iff.mp found
  cases (sound name table known).1
  cases unchanged
  suffices loaded : ∃ rows, Document.ofRows source.setting.schema
      ((∅ : TableRows).insert table.name rows) = .ok document ∧ ∀ rowKey : String, rows[rowKey]? =
        if want.covers rowKey then source.staged.view world.store.rows table rowKey else none by
    obtain ⟨rows, made, each⟩ := loaded
    obtain ⟨nodes, translated, lists⟩ := Document.exists_lists_of_ofRows known made
    exact ⟨table, nodes, known, rfl, ⟨rows, each, translated⟩, lists.trees⟩
  cases want with
  | whole =>
      have stored : loadWhole source table = loadStored source table := by
        rw [loadWhole, uncached]
        rfl
      rw [stored] at rest
      obtain ⟨rows, made, each⟩ := exists_rows_of_loadStored rest
      exact ⟨rows, made, each⟩
  | rows keys =>
      obtain ⟨rows, made, each⟩ := exists_rows_of_loadRows rest
      refine ⟨rows, made, fun rowKey => ?_⟩
      rw [each, Std.ExtTreeMap.getElem?_filter', getElem?_statesOf]
      unfold StagedEdits.view StagedEdits.rowAfter
      by_cases wanted : rowKey ∈ keys
      · cases source.staged.state? table.name rowKey <;>
          simp [wanted, Want.covers, Option.filter]
      · cases source.staged.state? table.name rowKey <;>
          simp [wanted, Want.covers, Option.filter]

/-- All that is assembled without the cache is loaded in order and joined. -/
theorem exists_parts_of_assemble (sound : source.setting.schema.IsSound)
    (uncached : source.useCache = false)
    (accepted : (assemble source wants).outcome world = (.ok document, later)) :
    ∃ parts, List.Forall₂ (IsPart source.setting.schema (source.staged.view world.store.rows))
      (allLoads source.setting.schema wants) parts ∧ document.trees = parts.foldl Forest.join [] := by
  obtain ⟨last, middle, loaded, noted⟩ := outcome_bind_eq_ok_iff.mp accepted
  obtain ⟨_, _, _, answered⟩ := outcome_bind_eq_ok_iff.mp noted
  cases answered
  obtain ⟨answers, each, rfl⟩ := IsReading.forall₂_of_foldlM
    (fun wanted : String × Want => isReading_load source wanted.1 wanted.2)
    (fun (document answer : Document) => document.merge answer.roots) loaded
  refine ⟨answers.map Document.trees, ?_, ?_⟩
  · rw [List.forall₂_map_right_iff]
    refine each.imp fun load answer => ?_
    rintro ⟨before, after, read, given⟩
    rw [← read.rows]
    exact isPart_of_load sound uncached given
  · rw [← Document.trees_empty]
    generalize Document.empty = start
    clear each loaded noted accepted
    induction answers generalizing start with
    | nil => rfl
    | cons answer answers ih =>
        rw [List.foldl_cons, ih, List.map_cons, List.foldl_cons, Document.trees_merge_roots]

/-- What is loaded of a table stands in its container, and what is loaded of others does not. -/
theorem exists_contents {loads : List (String × Want)} {parts : List (Forest Unit)}
    (loaded : List.Forall₂ (IsPart schema view) loads parts)
    (known : schema.table? table.name = some table) :
    ∃ contents, List.Forall₂ (IsLoaded table (view table)) (loadsOf loads table.name) contents ∧
      ∀ found, (parts.map fun part => part.reach? table.place).foldl joinFound found =
        contents.foldl (fun found nodes =>
          joinFound found (some (.tree (.plain table.name .container) nodes))) found := by
  induction loaded with
  | nil => exact ⟨[], .nil, fun _ => rfl⟩
  | @cons load part loads parts first _ ih =>
      obtain ⟨other, nodes, otherKnown, named, own, rfl⟩ := first
      obtain ⟨contents, rest, same⟩ := ih
      have reached := reach?_forestOf_place otherKnown known nodes
      by_cases mine : other.name = table.name
      · cases Schema.eq_of_name_eq otherKnown known mine
        refine ⟨nodes :: contents, ?_, fun found => ?_⟩
        · have mine : loadsOf (load :: loads) table.name = load.2 :: loadsOf loads table.name := by
            simp [loadsOf, named]
          rw [mine]
          exact .cons own rest
        · rw [List.map_cons, List.foldl_cons, List.foldl_cons, same, reached, if_pos rfl]
      · refine ⟨contents, ?_, fun found => ?_⟩
        · have others : loadsOf (load :: loads) table.name = loadsOf loads table.name := by
            simp [loadsOf, ← named, mine]
          rw [others]
          exact rest
        · rw [List.map_cons, List.foldl_cons, same, reached, if_neg mine]
          cases found <;> rfl

/-- The keys of the rows of a table that are loaded by themselves and once more with all of it. -/
def reloadedKeys (loads : List (String × Want)) (name : String) : Names :=
  match loadsOf loads name with
  | [.rows keys, .whole] => keys
  | _ => ∅

/-- Whether a row is wanted, or its table is brought in by what is wanted whole. -/
def IsDue (schema : Schema) (wants : Wants) (table : TableSchema) (rowKey : String) : Prop :=
  Brings schema (fun name => wants[name]? = some .whole) table.name ∨ wants.Covers table.name rowKey

/-- A row is due exactly if it is among what is loaded of its table. -/
theorem isDue_iff (known : schema.table? table.name = some table) {rowKey : String} :
    IsDue schema wants table rowKey ↔
      ∃ want ∈ loadsOf (allLoads schema wants) table.name, want.covers rowKey = true := by
  have there : (schema.table? table.name).isSome := Option.isSome_of_eq_some known
  have whole := whole_mem_loadsOf_iff schema wants there
  constructor
  · rintro (brings | ⟨want, wanted, covers⟩)
    · exact ⟨.whole, whole.mpr brings, rfl⟩
    · cases want with
      | whole => exact ⟨.whole, whole.mpr (.first wanted), rfl⟩
      | rows keys =>
          rcases (rows_mem_loadsOf schema wants there keys).2 wanted with single | all
          · exact ⟨_, single, covers⟩
          · exact ⟨_, all, rfl⟩
  · rintro ⟨want, loaded, covers⟩
    cases want with
    | whole => exact Or.inl (whole.mp loaded)
    | rows keys => exact Or.inr ⟨_, (rows_mem_loadsOf schema wants there keys).1 loaded, covers⟩

/-- Whether single rows are wanted only of tables with single-valued keys, and some of them each time. -/
def NamesRows (schema : Schema) (wants : Wants) : Prop :=
  ∀ (name : String) keys, wants[name]? = some (.rows keys) →
    (∃ rowKey, rowKey ∈ keys) ∧ ∀ table, schema.table? name = some table → table.IsSingle

/-- If some rows of a table with single-valued keys are loaded and then all of them, joining leaves the list
instances of all rows, those of rows that are loaded twice joined to themselves. -/
theorem IsLoaded.perm_join (sound : schema.IsSound) (known : schema.table? table.name = some table)
    (single : table.IsSingle) {seen : String → Option Fields} {keys : Names} {some all : Forest Unit}
    (loaded : IsLoaded table seen (.rows keys) some) (loadedAll : IsLoaded table seen .whole all) :
    (some.join all).Perm (all.map (TableSchema.rejoined keys)) := by
  obtain ⟨rows, each, translated⟩ := loaded
  obtain ⟨allRows, allEach, allTranslated⟩ := loadedAll
  obtain ⟨reads, rfl⟩ := TableSchema.reads_of_rowsNodes known (sound _ table known).2 single translated
  obtain ⟨allReads, rfl⟩ :=
    TableSchema.reads_of_rowsNodes known (sound _ table known).2 single allTranslated
  refine reads.perm_join allReads fun rowKey => ?_
  rw [each, allEach]
  simp [Want.covers]

/-- The list instances of a table that is loaded are those of its due rows, those of rows that are loaded
twice joined to themselves. -/
theorem exists_rows_of_contents (sound : schema.IsSound) (names : NamesRows schema wants)
    (known : schema.table? table.name = some table) {contents : List (Forest Unit)}
    (loaded : List.Forall₂ (IsLoaded table (view table))
      (loadsOf (allLoads schema wants) table.name) contents) :
    ∃ (rows : KeyedRows) (nodes : Forest Unit),
      (∀ (rowKey : String) fields, rows[rowKey]? = some fields ↔
        IsDue schema wants table rowKey ∧ view table rowKey = some fields) ∧
      table.rowsNodes rows = .ok nodes ∧
      ((contents.foldl (fun found nodes =>
          joinFound found (some (.tree (.plain table.name .container) nodes))) none).elim []
            Node.children).Perm
        (nodes.map (TableSchema.rejoined (reloadedKeys (allLoads schema wants) table.name))) := by
  have there : (schema.table? table.name).isSome := Option.isSome_of_eq_some known
  have unchanged : ∀ nodes : Forest Unit, nodes.map (TableSchema.rejoined ∅) = nodes :=
    fun nodes => (List.map_congr_left fun node _ => TableSchema.rejoined_empty node).trans nodes.map_id
  have named := rows_mem_loadsOf schema wants there
  simp only [isDue_iff known]
  rcases loadsOf_cases schema wants there with none | ⟨want, one⟩ | ⟨keys, two⟩
  · rw [none] at loaded ⊢
    cases loaded
    exact ⟨∅, [], by simp, rfl, .refl []⟩
  · rw [one] at loaded ⊢
    obtain ⟨nodes, rest, ⟨rows, each, translated⟩, nothing, rfl⟩ := List.forall₂_cons_left_iff.mp loaded
    cases nothing
    refine ⟨rows, nodes, fun rowKey fields => ?_, translated, ?_⟩
    · rw [each]
      by_cases covers : want.covers rowKey = true <;> simp [covers]
    · have once : reloadedKeys (allLoads schema wants) table.name = ∅ := by
        unfold reloadedKeys
        rw [one]
        cases want <;> rfl
      rw [once, unchanged]
      exact .refl nodes
  · rw [two] at loaded named ⊢
    obtain ⟨someNodes, rest, loadedSome, more, rfl⟩ := List.forall₂_cons_left_iff.mp loaded
    obtain ⟨allNodes, rest, loadedAll, nothing, rfl⟩ := List.forall₂_cons_left_iff.mp more
    cases nothing
    have single := (names table.name keys ((named keys).1 List.mem_cons_self)).2 table known
    have twice : reloadedKeys (allLoads schema wants) table.name = keys := by
      unfold reloadedKeys
      rw [two]
    rw [twice]
    have joined := loadedSome.perm_join sound known single loadedAll
    obtain ⟨all, allEach, allTranslated⟩ := loadedAll
    refine ⟨all, allNodes, fun rowKey fields => ?_, allTranslated, joined⟩
    rw [allEach]
    simp [Want.covers]

/-- What is assembled without the cache gathers all rows that are due, those of rows that are loaded twice
joined to themselves. -/
theorem gathers_of_assemble (sound : source.setting.schema.IsSound) (uncached : source.useCache = false)
    (names : NamesRows source.setting.schema wants)
    (accepted : (assemble source wants).outcome world = (.ok document, later)) :
    document.trees.IsPlaced source.setting.schema ∧
      document.Gathers source.setting.schema (source.staged.view world.store.rows)
        (IsDue source.setting.schema wants) fun table =>
          TableSchema.rejoined (reloadedKeys (allLoads source.setting.schema wants) table.name) := by
  obtain ⟨parts, loaded, joined⟩ := exists_parts_of_assemble sound uncached accepted
  obtain ⟨placed, reached⟩ := IsPlaced.foldl_join (fun part member => by
    obtain ⟨load, _, table, nodes, known, _, _, rfl⟩ := Except.exists_of_mem_right loaded member
    exact isPlaced_forestOf known nodes) IsPlaced.nil
  rw [← joined] at placed reached
  refine ⟨placed, fun table known => ?_, fun container member => ?_⟩
  · obtain ⟨contents, own, same⟩ := exists_contents loaded known
    rw [placed.instancesIn_eq known, reached _ (by simp [TableSchema.place]), same]
    exact exists_rows_of_contents sound names known own
  · obtain ⟨root, top, below⟩ := List.mem_flatMap.mp member
    obtain ⟨table, known, found, _, label⟩ := placed.exists_table top below
    have there : (source.setting.schema.table? table.name).isSome := Option.isSome_of_eq_some known
    obtain ⟨contents, own, same⟩ := exists_contents loaded known
    rw [reached _ (by simp [TableSchema.place]), same] at found
    cases own' : loadsOf (allLoads source.setting.schema wants) table.name with
    | nil =>
        rw [own'] at own
        cases own
        cases found
    | cons want others =>
        have first : want ∈ loadsOf (allLoads source.setting.schema wants) table.name := by
          rw [own']
          exact List.mem_cons_self
        have covered : ∃ rowKey, want.covers rowKey = true := by
          cases want with
          | whole => exact ⟨"", rfl⟩
          | rows keys =>
              obtain ⟨rowKey, inside⟩ := (names table.name keys
                ((rows_mem_loadsOf source.setting.schema wants there keys).1 first)).1
              exact ⟨rowKey, decide_eq_true inside⟩
        obtain ⟨rowKey, covers⟩ := covered
        exact ⟨table, rowKey, known, congrArg Label.name label,
          (isDue_iff known).mpr ⟨want, first, covers⟩⟩

end Dependency

end ConfigVetting
