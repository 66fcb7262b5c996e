import ConfigVetting.Proofs.Document.Changes
import ConfigVetting.Proofs.Document.Shape
import Mathlib.Data.List.Nodup

/-! # Rows with single-valued keys in documents

In a table whose key components hold single values, a row is one list instance, and the key of the
instance is the row key. Documents of such rows have the shape of the schema and hold each row at its
place (`ConfigVetting.Forest.ofRows_spec`); laying the state of a row over a document changes that place
alone (`ConfigVetting.Document.overlayRow_spec`).
-/

namespace ConfigVetting

namespace TableSchema

variable {table : TableSchema} {rowKey : String}

/-- Whether every component of the keys of a table holds a single value. -/
def IsSingle (table : TableSchema) : Prop :=
  ∀ segment ∈ table.segments, segment.repeating = false

instance (table : TableSchema) : Decidable table.IsSingle :=
  inferInstanceAs (Decidable (∀ segment ∈ table.segments, _))

/-- The list instance of a row. -/
def rowNode (table : TableSchema) (rowKey : String) (fields : Fields) : Tree :=
  table.instanceNode fields ((table.splitKey rowKey).getD [])

/-- The values of single-valued components are the components. -/
theorem IsSingle.componentValues_eq (single : table.IsSingle) {components : List String}
    (count : components.length = table.segments.length) :
    table.componentValues components = components.map fun component => [component] := by
  unfold componentValues
  unfold IsSingle at single
  generalize table.segments = segments at single count
  induction segments generalizing components with
  | nil => rw [List.eq_nil_of_length_eq_zero count]; rfl
  | cons segment segments ih =>
      obtain ⟨component, components, rfl⟩ := List.exists_cons_of_length_eq_add_one count
      rw [List.forall_mem_cons] at single
      have head : segment.values component = [component] := by
        rw [KeySegment.values, single.1]
        rfl
      rw [List.zip_cons_cons, List.map_cons, List.map_cons, ih single.2 (Nat.succ.inj count)]
      simp only [head]

/-- A row key of single-valued components stands for one list instance. -/
theorem IsSingle.expandKey_eq (single : table.IsSingle) (named : table.segments ≠ [])
    {components : List String} (split : table.splitKey rowKey = some components) :
    table.expandKey rowKey = .ok [components] := by
  have values := single.componentValues_eq (splitKey_sound named split).1
  refine expandKey_eq_ok_iff.mpr ⟨components, split, ?_, ?_⟩
  · rw [values]
    simp
  · rw [values, choices_singletons]

/-- A row of a table without combinations is translated to one node. -/
theorem IsSingle.rowNodes_eq (single : table.IsSingle) (named : table.segments ≠ [])
    {components : List String} (split : table.splitKey rowKey = some components) (fields : Fields) :
    table.rowNodes rowKey fields = .ok [table.rowNode rowKey fields] := by
  rw [rowNodes, single.expandKey_eq named split, rowNode, split]
  rfl

/-- The node of a row is the instance under its own key. -/
theorem label_rowNode (named : table.segments ≠ []) {components : List String}
    (split : table.splitKey rowKey = some components) (fields : Fields) :
    (table.rowNode rowKey fields).label = .listInstance table.listName rowKey := by
  obtain ⟨_, _, _, joined⟩ := splitKey_sound named split
  rw [rowNode, split, Option.getD_some, instanceNode]
  change Label.listInstance table.listName (table.instanceKey components) = _
  rw [joined]

/-- The only list instance of a row key of single-valued components has that key. -/
theorem IsSingle.instanceNode_eq (single : table.IsSingle) (named : table.segments ≠ [])
    {combinations : List (List String)} (expanded : table.expandKey rowKey = .ok combinations)
    {components : List String} (member : components ∈ combinations) (fields : Fields) :
    table.instanceNode fields components = table.rowNode rowKey fields ∧
      (table.rowNode rowKey fields).label = .listInstance table.listName rowKey := by
  obtain ⟨parts, split, _⟩ := expandKey_eq_ok_iff.mp expanded
  cases expanded.symm.trans (single.expandKey_eq named split)
  rw [List.mem_singleton.mp member]
  refine ⟨?_, label_rowNode named split fields⟩
  rw [rowNode, split]
  rfl

end TableSchema

namespace Forest

variable {schema : Schema} {table : TableSchema}

private theorem labelled?_single (label other : Label) (children : Forest Unit) :
    labelled? [.tree label children] other =
      if label = other then some (.tree label children) else none := by
  rw [labelled?_cons]
  rfl

theorem isOrderly_single {label : Label} (solid : label.IsSolid) (children : Forest Unit) :
    IsOrderly [.tree label children] := by
  refine ⟨fun node member => ?_, List.nodup_singleton _⟩
  rwa [List.mem_singleton.mp member]

/-- What the trees of a table hold below the container of the table. -/
theorem reach?_forestOf (table : TableSchema) (instances : Forest Unit) (first second third : Label) :
    (table.forestOf instances).reach? [first, second, third] =
      if [first, second] = table.place then instances.labelled? third else none := by
  unfold TableSchema.forestOf
  rw [reach?_cons (by simp), labelled?_single]
  by_cases top : Label.plain table.moduleName .module = first
  · subst top
    rw [if_pos rfl, Option.bind_some, reach?_cons (by simp)]
    change (labelled? [.tree (.plain table.name .container) instances] second).bind _ = _
    rw [labelled?_single]
    by_cases below : Label.plain table.name .container = second
    · subst below
      rw [if_pos rfl]
      exact (if_pos (rfl : _ = table.place)).symm
    · have apart : [Label.plain table.moduleName .module, second] ≠ table.place := fun same =>
        below (List.cons.inj (List.cons.inj same).2).1.symm
      rw [if_neg below, if_neg apart]
      rfl
  · have apart : [first, second] ≠ table.place := fun same => top (List.cons.inj same).1.symm
    rw [if_neg top, if_neg apart]
    rfl

/-- The only container of the trees of a table is that of the table. -/
theorem isSome_reach?_forestOf {instances : Forest Unit} {first second : Label}
    (there : ((table.forestOf instances).reach? [first, second]).isSome) :
    [first, second] = table.place := by
  unfold TableSchema.forestOf at there
  rw [reach?_cons (by simp), labelled?_single] at there
  by_cases top : Label.plain table.moduleName .module = first
  · rw [if_pos top, Option.bind_some] at there
    change (labelled? [.tree (.plain table.name .container) instances] second).isSome at there
    rw [labelled?_single] at there
    by_cases below : Label.plain table.name .container = second
    · rw [← top, ← below]
      rfl
    · rw [if_neg below] at there
      cases there
  · rw [if_neg top] at there
    cases there

/-- The trees of a table with list instances of different keys have the shape of the schema. -/
theorem isShaped_forestOf (known : schema.table? table.name = some table) {instances : Forest Unit}
    (labels : ∀ row ∈ instances, ∃ key, row.label = .listInstance table.listName key)
    (distinct : (instances.map Node.label).Nodup) : (table.forestOf instances).IsShaped schema := by
  refine ⟨⟨isOrderly_single (Label.isSolid_module _) _, fun root member => ?_⟩, ?_, ?_⟩
  · rw [List.mem_singleton.mp member]
    refine ⟨isOrderly_single (Label.isSolid_container _) _, fun container inside => ?_⟩
    rw [List.mem_singleton.mp inside]
    refine ⟨⟨fun row member => ?_, distinct⟩, fun _ _ => trivial⟩
    obtain ⟨key, label⟩ := labels row member
    rw [label]
    exact Label.isSolid_listInstance _ _
  · exact fun _ _ there => ⟨table, known, isSome_reach?_forestOf there⟩
  · intro first second third there
    rw [reach?_forestOf] at there
    by_cases place : [first, second] = table.place
    · rw [if_pos place] at there
      obtain ⟨row, found⟩ := Option.isSome_iff_exists.mp there
      obtain ⟨member, own⟩ := label_of_labelled? found
      obtain ⟨key, label⟩ := labels row member
      refine ⟨table, key, known, ?_⟩
      unfold TableSchema.place at place
      simp only [List.cons.injEq, and_true] at place
      rw [place.1, place.2, ← own, label]
      rfl
    · rw [if_neg place] at there
      cases there

/-- The place of an instance leads to it in the forest of its own table only. -/
theorem reach?_forestOf_instancePlace (known : schema.table? table.name = some table)
    {other : TableSchema} (otherKnown : schema.table? other.name = some other)
    (instances : Forest Unit) (key : String) :
    (table.forestOf instances).reach? (other.instancePlace key) =
      if table.name = other.name then instances.labelled? (.listInstance table.listName key)
      else none := by
  rw [TableSchema.instancePlace, reach?_forestOf]
  by_cases same : table.name = other.name
  · cases Schema.eq_of_name_eq known otherKnown same
    rw [if_pos rfl]
    exact if_pos (rfl : _ = table.place)
  · have apart : [.plain other.moduleName .module, .plain other.name .container] ≠ table.place := by
      intro equal
      have second := (List.cons.inj (List.cons.inj equal).2).1
      exact same (congrArg Label.name second).symm
    rw [if_neg apart, if_neg same]

/-- Joining with a forest of one node joins that node. -/
theorem join_single {node : Tree} (solid : node.label.IsSolid) (forest : Forest Unit) :
    forest.join [node] = node.joinInto forest := by
  have alone : ∀ other ∈ [node], other.label.IsSolid := fun other member =>
    List.mem_singleton.mp member ▸ solid
  rw [join, joinLists_of_solid alone, joinEach, joinEach]

/-- A module is known by its name and kind. -/
theorem isModule_iff {label : Label} (solid : label.IsSolid) (name : String) :
    label.name = name ∧ label.kind = .module ↔ label = .plain name .module := by
  obtain ⟨own, kind, key, value⟩ := label
  obtain ⟨_, _, valueless, keyless⟩ := solid
  cases valueless
  constructor
  · rintro ⟨rfl, rfl⟩
    cases keyless nofun
    rfl
  · intro same
    cases same
    exact ⟨rfl, rfl⟩

/-- Adding the container of a table that a placed forest does not have is joining it. -/
theorem addTable_eq_join {forest : Forest Unit} (placed : forest.IsPlaced schema)
    (absent : forest.reach? table.place = none) (instances : Forest Unit) :
    forest.addTable table instances = forest.join (table.forestOf instances) := by
  have isModule : ∀ node ∈ forest,
      (decide (node.name = table.moduleName) && decide (node.kind = .module)) =
        decide (node.label = .plain table.moduleName .module) := by
    intro node member
    rw [Bool.eq_iff_iff, Bool.and_eq_true, decide_eq_true_iff, decide_eq_true_iff,
      decide_eq_true_iff]
    exact isModule_iff (placed.orderly.1.solid node member) table.moduleName
  have solid : (Node.tree (.plain table.moduleName .module)
      [.tree (.plain table.name .container) instances]).label.IsSolid := Label.isSolid_module _
  have containerSolid : (Node.tree (.plain table.name .container) instances).label.IsSolid :=
    Label.isSolid_container _
  unfold TableSchema.place at absent
  rw [reach?_cons (by simp)] at absent
  unfold TableSchema.forestOf addTable
  rw [join_single solid]
  cases top : forest.labelled? (.plain table.moduleName .module) with
  | none =>
      have noModule : ¬ forest.any (fun node => decide (node.name = table.moduleName) &&
          decide (node.kind = .module)) = true := by
        intro some
        obtain ⟨node, member, own⟩ := List.any_eq_true.mp some
        rw [isModule node member, decide_eq_true_iff] at own
        exact labelled?_eq_none_iff.mp top (List.mem_map.mpr ⟨node, member, own⟩)
      rw [Node.joinInto_of_absent placed.orderly.1 solid top]
      exact if_neg noModule
  | some root =>
      rw [top, Option.bind_some] at absent
      obtain ⟨rootLabel, before, after, rfl, first⟩ := exists_split_of_labelled? top
      have inside : root ∈ before ++ root :: after := List.mem_append_right _ List.mem_cons_self
      have some : (before ++ root :: after).any (fun node =>
          decide (node.name = table.moduleName) && decide (node.kind = .module)) = true := by
        refine List.any_eq_true.mpr ⟨root, inside, ?_⟩
        rw [isModule root inside, rootLabel]
        exact decide_eq_true rfl
      have others : ∀ other ∈ before,
          (decide (other.name = table.moduleName) && decide (other.kind = .module)) = false := by
        intro other member
        rw [isModule other (List.mem_append_left _ member)]
        exact decide_eq_false (first other member)
      rw [Node.joinInto_of_present placed.orderly.1 solid rootLabel first]
      refine (if_pos some).trans ?_
      rw [modifyFirst_of_split others (by rw [isModule root inside, rootLabel]; exact decide_eq_true rfl)]
      change _ = before ++ root.withChildren (root.children.join
        [.tree (.plain table.name .container) instances]) :: after
      rw [join_single containerSolid,
        Node.joinInto_of_absent (placed.orderly.2 root inside).1 containerSolid absent]

end Forest

/-- Whether rows are those of a table of a schema, with single-valued keys that the table reads. -/
structure TableSchema.Reads (schema : Schema) (table : TableSchema) (rows : KeyedRows) : Prop where
  known : schema.table? table.name = some table
  named : table.segments ≠ []
  single : table.IsSingle
  split : ∀ rowKey fields, rows[rowKey]? = some fields →
    ∃ components, table.splitKey rowKey = some components

/-- The list instances of rows with single-valued keys. -/
def TableSchema.instancesOf (table : TableSchema) (rows : KeyedRows) : Forest Unit :=
  rows.toList.map fun row => table.rowNode row.1 row.2

namespace TableSchema.Reads

variable {schema : Schema} {table : TableSchema} {rows : KeyedRows}

/-- Rows that were translated had keys that the table reads. -/
theorem of_rowsNodes (known : schema.table? table.name = some table) (named : table.segments ≠ [])
    (single : table.IsSingle) {nodes : Forest Unit} (translated : table.rowsNodes rows = .ok nodes) :
    table.Reads schema rows where
  known := known
  named := named
  single := single
  split rowKey fields row := by
    obtain ⟨combinations, expanded, _⟩ := expands_of_rowsNodes translated row
    obtain ⟨components, split, _⟩ := expandKey_eq_ok_iff.mp expanded
    exact ⟨components, split⟩

/-- The rows of a table without combinations are translated to one node each. -/
theorem rowsNodes_eq (reads : table.Reads schema rows) :
    table.rowsNodes rows = .ok (table.instancesOf rows) := by
  have each : rows.toList.mapM (fun (row : String × Fields) => table.rowNodes row.1 row.2) =
      .ok (rows.toList.map fun row => [table.rowNode row.1 row.2]) := by
    rw [Except.mapM_eq_ok_iff, List.forall₂_map_right_iff, List.forall₂_same]
    intro row member
    obtain ⟨components, split⟩ := reads.split row.1 row.2
      (Std.ExtTreeMap.mem_toList_iff_getElem?_eq_some.mp member)
    exact reads.single.rowNodes_eq reads.named split row.2
  unfold TableSchema.rowsNodes
  rw [each]
  change Except.ok _ = _
  rw [← List.flatMap_def, instancesOf, List.map_eq_flatMap]

private theorem labels (reads : table.Reads schema rows) :
    (table.instancesOf rows).map Node.label =
      rows.toList.map fun row => .listInstance table.listName row.1 := by
  rw [instancesOf, List.map_map]
  refine List.map_congr_left fun row member => ?_
  obtain ⟨components, split⟩ := reads.split row.1 row.2
    (Std.ExtTreeMap.mem_toList_iff_getElem?_eq_some.mp member)
  exact label_rowNode reads.named split row.2

private theorem distinct (reads : table.Reads schema rows) :
    ((table.instancesOf rows).map Node.label).Nodup := by
  have same : rows.toList.map (fun row => Label.listInstance table.listName row.1) =
      (rows.toList.map Prod.fst).map fun key => .listInstance table.listName key := by
    rw [List.map_map]
    rfl
  rw [reads.labels, same]
  refine rows.nodup_toList.map fun first second equal => ?_
  exact Option.some.inj (congrArg Label.key equal)

theorem exists_key (reads : table.Reads schema rows) :
    ∀ row ∈ table.instancesOf rows, ∃ key, row.label = .listInstance table.listName key := by
  intro row member
  have listed := List.mem_map_of_mem (f := Node.label) member
  rw [reads.labels] at listed
  obtain ⟨entry, _, label⟩ := List.mem_map.mp listed
  exact ⟨entry.1, label.symm⟩

/-- The instances of such a table have different keys. -/
theorem isOrderly (reads : table.Reads schema rows) : (table.instancesOf rows).IsOrderly := by
  refine ⟨fun node member => ?_, reads.distinct⟩
  obtain ⟨key, label⟩ := reads.exists_key node member
  rw [label]
  exact Label.isSolid_listInstance _ _

/-- The list instance of a key among those of rows is that of its row. -/
theorem labelled?_instancesOf (reads : table.Reads schema rows) (key : String) :
    (table.instancesOf rows).labelled? (.listInstance table.listName key) =
      rows[key]?.map (table.rowNode key) := by
  cases found : rows[key]? with
  | none =>
      rw [Option.map_none, Forest.labelled?_eq_none_iff, reads.labels]
      intro inside
      obtain ⟨entry, member, label⟩ := List.mem_map.mp inside
      have own : entry.1 = key := Option.some.inj (congrArg Label.key label)
      rw [← own, Std.ExtTreeMap.mem_toList_iff_getElem?_eq_some.mp member] at found
      cases found
  | some fields =>
      obtain ⟨components, split⟩ := reads.split key fields found
      have member : table.rowNode key fields ∈ table.instancesOf rows :=
        List.mem_map.mpr ⟨(key, fields), Std.ExtTreeMap.mem_toList_iff_getElem?_eq_some.mpr found, rfl⟩
      rw [← label_rowNode reads.named split fields, reads.isOrderly.labelled?_of_mem member]
      rfl

private theorem isShaped (reads : table.Reads schema rows) :
    (table.forestOf (table.instancesOf rows)).IsShaped schema :=
  Forest.isShaped_forestOf reads.known reads.exists_key reads.distinct

/-- The trees of rows hold each row at its place. -/
theorem reach?_forestOf (reads : table.Reads schema rows) {other : TableSchema}
    (otherKnown : schema.table? other.name = some other) (key : String) :
    (table.forestOf (table.instancesOf rows)).reach? (other.instancePlace key) =
      if table.name = other.name then rows[key]?.map (other.rowNode key) else none := by
  rw [Forest.reach?_forestOf_instancePlace reads.known otherKnown, reads.labelled?_instancesOf]
  by_cases same : table.name = other.name
  · rw [if_pos same, if_pos same, Schema.eq_of_name_eq reads.known otherKnown same]
  · rw [if_neg same, if_neg same]

end TableSchema.Reads

namespace Forest

variable {schema : Schema}

/-- Whether all rows are those of tables of a schema, with single-valued keys that the tables read. -/
def AreRead (schema : Schema) (rows : TableRows) : Prop :=
  ∀ name keyed, rows[name]? = some keyed → ∃ table : TableSchema, table.name = name ∧
    table.Reads schema keyed

/-- Adding the rows of a table that a shaped forest does not have puts them at their places. -/
theorem addTable_spec {table : TableSchema} {rows : KeyedRows} (reads : table.Reads schema rows)
    {forest : Forest Unit} (shaped : forest.IsShaped schema)
    (absent : forest.reach? table.place = none) :
    let added := forest.addTable table (table.instancesOf rows)
    added.IsShaped schema ∧
      (∀ other : TableSchema, table.name ≠ other.name → forest.reach? other.place = none →
        added.reach? other.place = none) ∧
      ∀ other, schema.table? other.name = some other → ∀ key,
        added.reach? (other.instancePlace key) =
          if table.name = other.name then rows[key]?.map (other.rowNode key)
          else forest.reach? (other.instancePlace key) := by
  have added := reads.isShaped
  rw [addTable_eq_join shaped.isPlaced absent]
  refine ⟨shaped.join added, fun other apart before => ?_, fun other otherKnown key => ?_⟩
  · unfold TableSchema.place at before ⊢
    rw [reach?_join shaped.orderly added.orderly (by simp), before]
    cases there : (table.forestOf (table.instancesOf rows)).reach?
        [.plain other.moduleName .module, .plain other.name .container] with
    | none => rfl
    | some container =>
        have place := isSome_reach?_forestOf (by rw [there]; rfl)
        have same : other.name = table.name :=
          congrArg Label.name (List.cons.inj (List.cons.inj place).2).1
        exact absurd same.symm apart
  · rw [reach?_join shaped.orderly added.orderly (by simp [TableSchema.instancePlace]),
      reads.reach?_forestOf otherKnown]
    by_cases same : table.name = other.name
    · cases Schema.eq_of_name_eq reads.known otherKnown same
      rw [if_pos rfl, if_pos rfl, reach?_instancePlace, absent]
      rfl
    · rw [if_neg same, if_neg same]
      cases forest.reach? (other.instancePlace key) <;> rfl

/-- Adding the rows of tables one after another puts all of them at their places. -/
theorem foldlM_addTable_spec {entries : List (String × KeyedRows)}
    (reads : ∀ entry ∈ entries, ∃ table : TableSchema, table.name = entry.1 ∧
      table.Reads schema entry.2) (distinct : (entries.map Prod.fst).Nodup) {forest : Forest Unit}
    (shaped : forest.IsShaped schema)
    (absent : ∀ table : TableSchema, table.name ∈ entries.map Prod.fst →
      forest.reach? table.place = none) :
    ∃ result, entries.foldlM (fun forest (name, keyed) => do
        let table ← schema.knownTable name
        return forest.addTable table (← table.rowsNodes keyed)) forest = .ok result ∧
      result.IsShaped schema ∧
      ∀ table, schema.table? table.name = some table → ∀ key,
        result.reach? (table.instancePlace key) =
          match entries.find? fun entry => entry.1 = table.name with
          | some entry => entry.2[key]?.map (table.rowNode key)
          | none => forest.reach? (table.instancePlace key) := by
  induction entries generalizing forest with
  | nil => exact ⟨forest, rfl, shaped, fun _ _ _ => rfl⟩
  | cons entry entries ih =>
      obtain ⟨name, keyed⟩ := entry
      rw [List.forall_mem_cons] at reads
      rw [List.map_cons, List.nodup_cons] at distinct
      obtain ⟨⟨table, rfl, tableReads⟩, restReads⟩ := reads
      obtain ⟨addedShaped, others, reached⟩ :=
        addTable_spec tableReads shaped (absent table List.mem_cons_self)
      have stillAbsent : ∀ other : TableSchema, other.name ∈ entries.map Prod.fst →
          (forest.addTable table (table.instancesOf keyed)).reach? other.place = none := by
        intro other inside
        refine others other ?_ (absent other (List.mem_cons_of_mem _ inside))
        exact fun same => distinct.1 (same ▸ inside)
      obtain ⟨result, made, resultShaped, found⟩ := ih restReads distinct.2 addedShaped stillAbsent
      have step : (do
          let table ← schema.knownTable table.name
          return forest.addTable table (← table.rowsNodes keyed) : Except Rejection _) =
          .ok (forest.addTable table (table.instancesOf keyed)) := by
        rw [Schema.knownTable_eq_ok_iff.mpr tableReads.known]
        change (do return forest.addTable table (← table.rowsNodes keyed) : Except Rejection _) = _
        rw [tableReads.rowsNodes_eq]
        rfl
      refine ⟨result, ?_, resultShaped, fun other otherKnown key => ?_⟩
      · rw [List.foldlM_cons]
        simp only [step]
        exact made
      · rw [found other otherKnown, List.find?_cons, reached other otherKnown]
        by_cases same : table.name = other.name
        · simp [same, ByName.find?_eq_none_of_notMem (same ▸ distinct.1)]
        · simp [same]

/-- Rows of tables with single-valued keys become a forest of the shape of the schema that holds each
of them at its place. -/
theorem ofRows_spec {rows : TableRows} (reads : AreRead schema rows) :
    ∃ forest, ofRows schema rows = .ok forest ∧ forest.IsShaped schema ∧
      ∀ table, schema.table? table.name = some table → ∀ key,
        forest.reach? (table.instancePlace key) =
          (rows.keyed table.name)[key]?.map (table.rowNode key) := by
  have entries : ∀ entry ∈ rows.toList, ∃ table : TableSchema, table.name = entry.1 ∧
      table.Reads schema entry.2 := fun entry member =>
    reads entry.1 entry.2 (Std.ExtTreeMap.mem_toList_iff_getElem?_eq_some.mp member)
  obtain ⟨forest, made, shaped, found⟩ := foldlM_addTable_spec entries rows.nodup_toList
    IsShaped.nil fun _ _ => rfl
  refine ⟨forest, made, shaped, fun table known key => ?_⟩
  rw [found table known, rows.find?_toList, TableRows.keyed]
  cases rows[table.name]? with
  | none => simp [reach?, TableSchema.instancePlace, labelled?]
  | some keyed => rfl

end Forest

end ConfigVetting
