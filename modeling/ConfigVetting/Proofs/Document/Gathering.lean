import ConfigVetting.Proofs.Document.Contents
import ConfigVetting.Proofs.Document.Copies

/-! # Documents of several tables

A document gathers rows if it holds their list instances in the containers of their tables, and nothing
else (`ConfigVetting.Document.Gathers`). The document of rows gathers all of them
(`ConfigVetting.Document.gathers_ofRows`). Trees of single tables that are joined one after another hold, in
the container of each table, the list instances of its trees joined
(`ConfigVetting.Forest.IsPlaced.foldl_join`). If a table with single-valued keys is joined with some of its
rows first and with all of them later, its list instances are those of all rows, those that were there
already joined to themselves (`ConfigVetting.TableSchema.Reads.perm_join`).
-/

namespace ConfigVetting

namespace Forest

variable {schema : Schema} {table other : TableSchema}

/-- The only container of the trees of a table stands at the place of the table. -/
theorem reach?_forestOf_place (known : schema.table? table.name = some table)
    (otherKnown : schema.table? other.name = some other) (nodes : Forest Unit) :
    (table.forestOf nodes).reach? other.place =
      if table.name = other.name then some (.tree (.plain table.name .container) nodes) else none := by
  by_cases same : table.name = other.name
  · cases Schema.eq_of_name_eq known otherKnown same
    rw [if_pos rfl]
    simp [TableSchema.forestOf, TableSchema.place, reach?, labelled?, Node.tree, Node.label,
      Node.children]
  · rw [if_neg same]
    cases found : (table.forestOf nodes).reach? other.place with
    | none => rfl
    | some container =>
        unfold TableSchema.place at found
        have place := isSome_reach?_forestOf (by rw [found]; rfl)
        exact absurd (congrArg Label.name (List.cons.inj (List.cons.inj place).2).1).symm same

/-- The forest of a table places its instances below the table. -/
theorem isPlaced_forestOf (known : schema.table? table.name = some table) (nodes : Forest Unit) :
    (table.forestOf nodes).IsPlaced schema where
  orderly := by
    refine ⟨isOrderly_single (Label.isSolid_module _) _, fun root top => ?_⟩
    rw [List.mem_singleton.mp top]
    exact ⟨isOrderly_single (Label.isSolid_container _) _, fun _ _ => trivial⟩
  containers _ _ there := ⟨table, known, isSome_reach?_forestOf there⟩

/-- Placed trees that are joined one after another are placed, and hold at each place what all of them
hold there, joined. -/
theorem IsPlaced.foldl_join {parts : List (Forest Unit)}
    (each : ∀ part ∈ parts, IsPlaced schema part) {start : Forest Unit}
    (placed : start.IsPlaced schema) :
    (parts.foldl Forest.join start).IsPlaced schema ∧ ∀ path : List Label, path.length ≤ 2 →
      (parts.foldl Forest.join start).reach? path =
        (parts.map fun part => part.reach? path).foldl joinFound (start.reach? path) := by
  induction parts generalizing start with
  | nil => exact ⟨placed, fun _ _ => rfl⟩
  | cons part parts ih =>
      obtain ⟨own, others⟩ := List.forall_mem_cons.mp each
      obtain ⟨joined, reached⟩ := ih others (placed.join own)
      refine ⟨joined, fun path short => (reached path short).trans ?_⟩
      rw [reach?_join placed.orderly own.orderly short, List.map_cons, List.foldl_cons]

/-- Adding a table that placed trees do not have puts its container at its place. -/
theorem IsPlaced.addTable {forest : Forest Unit} (placed : forest.IsPlaced schema)
    (known : schema.table? table.name = some table) (absent : forest.reach? table.place = none)
    (nodes : Forest Unit) :
    (forest.addTable table nodes).IsPlaced schema ∧
      ∀ other, schema.table? other.name = some other →
        (forest.addTable table nodes).reach? other.place =
          if table.name = other.name then some (.tree (.plain table.name .container) nodes)
          else forest.reach? other.place := by
  have added := isPlaced_forestOf known nodes
  rw [addTable_eq_join placed absent]
  refine ⟨placed.join added, fun other otherKnown => ?_⟩
  rw [reach?_join placed.orderly added.orderly (by simp [TableSchema.place]),
    reach?_forestOf_place known otherKnown]
  by_cases same : table.name = other.name
  · cases Schema.eq_of_name_eq known otherKnown same
    simp [absent, joinFound]
  · rw [if_neg same, if_neg same]
    cases forest.reach? other.place <;> rfl

/-- The rows of tables that are added one after another, no table twice, are put at the places of the
tables. -/
theorem reach?_of_foldlM_addTable (sound : schema.IsSound) {entries : List (String × KeyedRows)}
    (distinct : (entries.map Prod.fst).Nodup) {start result : Forest Unit}
    (placed : start.IsPlaced schema)
    (absent : ∀ table, schema.table? table.name = some table →
      table.name ∈ entries.map Prod.fst → start.reach? table.place = none)
    (made : entries.foldlM (fun forest (name, keyed) => do
      let table ← schema.knownTable name
      return forest.addTable table (← table.rowsNodes keyed)) start = .ok result) :
    result.IsPlaced schema ∧ ∀ table, schema.table? table.name = some table →
      (∀ keyed, (table.name, keyed) ∈ entries → ∃ nodes, table.rowsNodes keyed = .ok nodes ∧
        result.reach? table.place = some (.tree (.plain table.name .container) nodes)) ∧
      (table.name ∉ entries.map Prod.fst → result.reach? table.place = start.reach? table.place) := by
  induction entries generalizing start with
  | nil =>
      cases made
      exact ⟨placed, fun _ _ => ⟨by simp, fun _ => rfl⟩⟩
  | cons entry entries ih =>
      obtain ⟨name, keyed⟩ := entry
      rw [List.map_cons, List.nodup_cons] at distinct
      rw [List.foldlM_cons] at made
      obtain ⟨middle, stepped, rest⟩ := Except.bind_eq_ok_iff.mp made
      obtain ⟨own, found, added⟩ := Except.bind_eq_ok_iff.mp stepped
      obtain ⟨nodes, translated, answered⟩ := Except.bind_eq_ok_iff.mp added
      cases answered
      have known := Schema.knownTable_eq_ok_iff.mp found
      cases (sound name own known).1
      obtain ⟨ownPlaced, reached⟩ := placed.addTable known (absent own known List.mem_cons_self) nodes
      have apart : ∀ other : TableSchema, other.name ∈ entries.map Prod.fst → own.name ≠ other.name :=
        fun other inside same => distinct.1 (same ▸ inside)
      obtain ⟨resultPlaced, others⟩ := ih distinct.2 ownPlaced (fun other otherKnown inside => by
        rw [reached other otherKnown, if_neg (apart other inside)]
        exact absent other otherKnown (List.mem_cons_of_mem _ inside)) rest
      refine ⟨resultPlaced, fun other otherKnown => ?_⟩
      obtain ⟨added, untouched⟩ := others other otherKnown
      rw [reached other otherKnown] at untouched
      refine ⟨fun keyedOther member => ?_, fun outside => ?_⟩
      · rcases List.mem_cons.mp member with same | later
        · cases Schema.eq_of_name_eq known otherKnown (congrArg Prod.fst same).symm
          cases same
          exact ⟨nodes, translated, (untouched distinct.1).trans (if_pos rfl)⟩
        · exact added keyedOther later
      · rw [List.map_cons, List.mem_cons, not_or] at outside
        exact (untouched outside.2).trans (if_neg fun same => outside.1 same.symm)

/-- The list instances of a table that are found in placed trees are all that there are. -/
theorem IsPlaced.listInstances_eq {forest : Forest Unit} (placed : forest.IsPlaced schema)
    (known : schema.table? table.name = some table) :
    forest.listInstances table.name = (forest.instancesIn table.name).filter Node.isInstance := by
  rw [placed.instancesIn_eq known, listInstances, placed.tableContainer?_eq known]
  cases forest.reach? table.place <;> rfl

/-- Each container in placed trees is that of a table. -/
theorem IsPlaced.exists_table_of_below {σ : Type} {forest : Forest σ}
    (placed : forest.bare.IsPlaced schema) {container : Node σ}
    (below : container ∈ forest.flatMap Node.children) :
    ∃ table, schema.table? table.name = some table ∧ container.label = .plain table.name .container := by
  have bareBelow : container.bare ∈ forest.bare.flatMap Node.children := by
    rw [flatMap_children_bare]
    exact List.mem_map_of_mem below
  obtain ⟨root, top, inRoot⟩ := List.mem_flatMap.mp bareBelow
  obtain ⟨table, known, _, _, label⟩ := placed.exists_table top inRoot
  exact ⟨table, known, container.label_bare ▸ label⟩

/-- The list instances of a table in placed trees are all that stands in containers of its name. -/
theorem IsPlaced.mem_instancesIn_bare_iff {σ : Type} {forest : Forest σ}
    (placed : forest.bare.IsPlaced schema) {name : String} {tree : Tree} :
    tree ∈ forest.bare.instancesIn name ↔ ∃ container ∈ forest.flatMap Node.children,
      container.name = name ∧ ∃ node ∈ container.children, node.bare = tree := by
  unfold instancesIn
  rw [flatMap_children_bare]
  constructor
  · intro inside
    obtain ⟨_, listed, member⟩ := List.mem_flatMap.mp inside
    obtain ⟨bareBelow, isTable⟩ := List.mem_filter.mp listed
    obtain ⟨container, below, rfl⟩ := List.mem_map.mp bareBelow
    rw [Node.isTable, Bool.and_eq_true, decide_eq_true_iff, decide_eq_true_iff, Node.name_bare] at isTable
    rw [Node.children_bare] at member
    exact ⟨container, below, isTable.2, List.mem_map.mp member⟩
  · rintro ⟨container, below, rfl, node, inside, rfl⟩
    obtain ⟨_, _, label⟩ := placed.exists_table_of_below below
    have isTable : container.bare.isTable container.name = true := by
      rw [Node.isTable_bare]
      simp [Node.isTable, Node.kind, label, Label.plain, Node.name]
    refine List.mem_flatMap.mpr ⟨container.bare, List.mem_filter.mpr
      ⟨List.mem_map_of_mem below, isTable⟩, ?_⟩
    rw [Node.children_bare]
    exact List.mem_map_of_mem inside

/-- Orderly forests with the same nodes by label differ in their order alone. -/
theorem IsOrderly.perm {first second : Forest Unit} (orderly : first.IsOrderly)
    (otherOrderly : second.IsOrderly)
    (same : ∀ label, first.labelled? label = second.labelled? label) : first.Perm second := by
  have mem_iff : ∀ {forest : Forest Unit}, forest.IsOrderly → ∀ node : Tree,
      node ∈ forest ↔ forest.labelled? node.label = some node := fun own node =>
    ⟨own.labelled?_of_mem, fun found => (label_of_labelled? found).1⟩
  refine (List.perm_ext_iff_of_nodup orderly.distinct.of_map otherOrderly.distinct.of_map).mpr
    fun node => ?_
  rw [mem_iff orderly, mem_iff otherOrderly, same]

/-- Nodes that are changed below their labels are found by the same labels. -/
theorem labelled?_map {change : Tree → Tree} (keeps : ∀ node, (change node).label = node.label)
    (forest : Forest Unit) (label : Label) :
    labelled? (forest.map change) label = (forest.labelled? label).map change := by
  unfold labelled?
  rw [List.find?_map]
  simp only [Function.comp_def, keeps]

private theorem IsOrderly.map {change : Tree → Tree} (keeps : ∀ node, (change node).label = node.label)
    {forest : Forest Unit} (orderly : forest.IsOrderly) : IsOrderly (forest.map change) where
  solid node member := by
    obtain ⟨before, inside, rfl⟩ := List.mem_map.mp member
    rw [keeps]
    exact orderly.solid before inside
  distinct := by
    rw [List.map_map, Function.comp_def]
    simpa only [keeps] using orderly.distinct

/-- Joining a node to itself keeps its values, if no two of its children stand for the same node. -/
theorem mem_leafValues_joined_self {node : Tree} (inner : node.kind ≠ .leaf)
    (distinct : node.children.identities.Nodup) {field value : String} :
    value ∈ (joined node node).leafValues field ↔ value ∈ node.leafValues field := by
  refine ⟨fun inside => or_self_iff.mp (mem_leafValues_joined inside), fun inside => ?_⟩
  obtain ⟨child, below, named, kind, held⟩ := Node.mem_leafValues_iff.mp inside
  rw [joined_of_inner node inner, Node.mem_leafValues_iff, Node.children_withChildren]
  by_cases listed : child.kind = .leafList
  · have member : child ∈ node.children.membersOf child.name :=
      List.mem_filter.mpr ⟨below, Label.isMemberOf_iff.mpr ⟨listed, rfl⟩⟩
    have kept : child ∈ (node.children.join node.children).membersOf child.name := by
      rw [membersOf_join distinct, if_neg (List.ne_nil_of_mem member)]
      exact member
    exact ⟨child, (List.mem_filter.mp kept).1, named, kind, held⟩
  · have leaf : child.kind = .leaf := kind.resolve_right listed
    have found := single?_of_mem distinct below listed
    have joins : (node.children.join node.children).single? child.label.identity =
        some (joined child child) := by
      rw [single?_join distinct, found]
      rfl
    refine ⟨_, (of_single?_eq_some joins).1, (label_joined child child).1.trans named, ?_, ?_⟩
    · rw [kind_joined]
      exact kind
    · rw [joined_of_leaf child leaf]
      exact held

end Forest

namespace TableSchema

open Forest

variable {schema : Schema} {table : TableSchema} {rows : KeyedRows} {nodes : Forest Unit}

/-- The rows of a table with single-valued keys that have list instances are read by the table. -/
theorem reads_of_rowsNodes (known : schema.table? table.name = some table)
    (sound : table.IsSound) (single : table.IsSingle)
    (translated : table.rowsNodes rows = .ok nodes) :
    table.Reads schema rows ∧ nodes = table.instancesOf rows := by
  have reads := Reads.of_rowsNodes known sound.named single translated
  exact ⟨reads, Except.ok.inj (translated.symm.trans reads.rowsNodes_eq)⟩

/-- A list instance with itself joined to it, if its key is one of some. -/
def rejoined (keys : Names) (node : Tree) : Tree :=
  if node.key.getD "" ∈ keys then joined node node else node

@[simp]
theorem rejoined_empty (node : Tree) : rejoined ∅ node = node :=
  if_neg (by simp)

private theorem label_joined_self (node : Tree) : (joined node node).label = node.label := by
  unfold joined
  split <;> rfl

private theorem label_rejoined (keys : Names) (node : Tree) : (rejoined keys node).label = node.label := by
  unfold rejoined
  split
  · exact label_joined_self node
  · rfl

/-- List instances of rows with single-valued keys have different labels if the row keys differ. -/
theorem IsSingle.eq_of_label_eq (single : table.IsSingle) (named : table.segments ≠ [])
    {rowKey otherKey : String} {combinations others : List (List String)}
    (expanded : table.expandKey rowKey = .ok combinations) {components : List String}
    (chosen : components ∈ combinations) (otherExpanded : table.expandKey otherKey = .ok others)
    {parts : List String} (otherChosen : parts ∈ others) {fields otherFields : Fields}
    (same : (table.instanceNode fields components).label =
      (table.instanceNode otherFields parts).label) : rowKey = otherKey := by
  obtain ⟨own, label⟩ := single.instanceNode_eq named expanded chosen fields
  obtain ⟨other, otherLabel⟩ := single.instanceNode_eq named otherExpanded otherChosen otherFields
  rw [own, other, label, otherLabel] at same
  exact Option.some.inj (congrArg Label.key same)

/-- The only list instance of a row with a single-valued key is joined to itself if the row key is one of
those given. -/
theorem IsSingle.rejoined_eq (single : table.IsSingle) (named : table.segments ≠ [])
    {rowKey : String} {combinations : List (List String)}
    (expanded : table.expandKey rowKey = .ok combinations) {components : List String}
    (chosen : components ∈ combinations) (keys : Names) (fields : Fields) :
    rejoined keys (table.instanceNode fields components) =
      if rowKey ∈ keys then joined (table.rowNode rowKey fields) (table.rowNode rowKey fields)
      else table.rowNode rowKey fields := by
  obtain ⟨own, label⟩ := single.instanceNode_eq named expanded chosen fields
  rw [own, rejoined, Node.key, label]
  rfl

/-- A list instance that is joined to itself keeps the values directly below it. -/
theorem mem_leafValues_rejoined (sound : table.IsSound) {rowKey : String}
    {combinations : List (List String)} (expanded : table.expandKey rowKey = .ok combinations)
    {components : List String} (chosen : components ∈ combinations) (keys : Names) (fields : Fields)
    {field value : String} :
    value ∈ (rejoined keys (table.instanceNode fields components)).leafValues field ↔
      value ∈ (table.instanceNode fields components).leafValues field := by
  obtain ⟨_, _, own⟩ := isChosen_of_expandKey sound.named expanded chosen
  unfold rejoined
  split
  · exact Forest.mem_leafValues_joined_self (by rintro ⟨⟩)
      (nodup_identities_instanceNode sound own.length_eq)
  · rfl

/-- Joining some rows of a table with all of them leaves the list instances of all rows, those that
were there already joined to themselves. -/
theorem Reads.perm_join {some all : KeyedRows} {keys : Names} (reads : table.Reads schema some)
    (allReads : table.Reads schema all)
    (chosen : ∀ rowKey : String, some[rowKey]? = if rowKey ∈ keys then all[rowKey]? else none) :
    ((table.instancesOf some).join (table.instancesOf all)).Perm
      ((table.instancesOf all).map (rejoined keys)) := by
  obtain ⟨orderly, found⟩ := join_spec reads.isOrderly allReads.isOrderly
  refine orderly.perm (allReads.isOrderly.map (label_rejoined keys)) fun label => ?_
  rw [found, labelled?_map (label_rejoined keys)]
  by_cases own : ∃ key, label = .listInstance table.listName key
  · obtain ⟨key, rfl⟩ := own
    rw [reads.labelled?_instancesOf, allReads.labelled?_instancesOf, chosen]
    cases row : all[key]? with
    | none => simp [joinFound]
    | some fields =>
        obtain ⟨components, split⟩ := allReads.split key fields row
        have label := label_rowNode allReads.named split fields
        have inner : (table.rowNode key fields).kind ≠ .leaf := by
          rw [Node.kind, label]
          rintro ⟨⟩
        have keyed : (table.rowNode key fields).key.getD "" = key := by
          rw [Node.key, label]
          rfl
        by_cases inside : key ∈ keys
        · simp [inside, joinFound, rejoined, keyed, joined_of_inner _ inner]
        · simp [inside, joinFound, rejoined, keyed]
  · have absent : ∀ {rows : KeyedRows}, table.Reads schema rows →
        (table.instancesOf rows).labelled? label = none := by
      intro rows reads
      refine labelled?_eq_none_iff.mpr fun inside => own ?_
      obtain ⟨node, member, same⟩ := List.mem_map.mp inside
      obtain ⟨key, label⟩ := reads.exists_key node member
      exact ⟨key, same.symm.trans label⟩
    rw [absent reads, absent allReads]
    rfl

end TableSchema

/-- Whether a document holds, of each table, the list instances of the rows that are due and there, each
of them changed in some way, and no container of a table of which nothing is due. -/
structure Document.Gathers (schema : Schema) (view : TableSchema → String → Option Fields)
    (due : TableSchema → String → Prop) (change : TableSchema → Tree → Tree) (document : Document) :
    Prop where
  instances : ∀ table, schema.table? table.name = some table → ∃ (rows : KeyedRows) (nodes : Forest Unit),
    (∀ (rowKey : String) fields, rows[rowKey]? = some fields ↔
      due table rowKey ∧ view table rowKey = some fields) ∧
    table.rowsNodes rows = .ok nodes ∧
    (document.trees.instancesIn table.name).Perm (nodes.map (change table))
  containers : ∀ container ∈ document.trees.flatMap Node.children, ∃ table rowKey,
    schema.table? table.name = some table ∧ container.name = table.name ∧ due table rowKey

namespace Document.Gathers

variable {schema : Schema} {view : TableSchema → String → Option Fields}
  {due more : TableSchema → String → Prop} {change other : TableSchema → Tree → Tree}
  {document : Document} {keys : TableSchema → Names}

/-- What a document gathers depends on which rows are due of those that are there, and on what becomes of
their list instances. -/
theorem congr (gathers : document.Gathers schema view due change)
    (same : ∀ table, schema.table? table.name = some table → ∀ rowKey,
      (view table rowKey).isSome → (due table rowKey ↔ more table rowKey))
    (less : ∀ table rowKey, due table rowKey → more table rowKey)
    (changes : ∀ table, schema.table? table.name = some table → ∀ rowKey fields, due table rowKey →
      view table rowKey = some fields → ∀ combinations, table.expandKey rowKey = .ok combinations →
        ∀ components ∈ combinations, change table (table.instanceNode fields components) =
          other table (table.instanceNode fields components)) :
    document.Gathers schema view more other where
  instances table known := by
    obtain ⟨rows, nodes, each, translated, perm⟩ := gathers.instances table known
    refine ⟨rows, nodes, fun rowKey fields => (each rowKey fields).trans ?_, translated, ?_⟩
    · refine and_congr_left fun row => same table known rowKey ?_
      rw [row]
      rfl
    · have alike : nodes.map (change table) = nodes.map (other table) := by
        refine List.map_congr_left fun node member => ?_
        obtain ⟨rowKey, fields, row, combinations, expanded, components, chosen, rfl⟩ :=
          (Forest.mem_rowsNodes_iff translated).mp member
        obtain ⟨isDue, seen⟩ := (each rowKey fields).mp row
        exact changes table known rowKey fields isDue seen combinations expanded components chosen
      rwa [← alike]
  containers container member := by
    obtain ⟨table, rowKey, known, named, isDue⟩ := gathers.containers container member
    exact ⟨table, rowKey, known, named, less table rowKey isDue⟩

/-- A list instance of a due row is in the document, changed. -/
theorem mem_instancesIn (gathers : document.Gathers schema view due change) {table : TableSchema}
    (known : schema.table? table.name = some table) {node : Tree} :
    node ∈ document.trees.instancesIn table.name ↔ ∃ rowKey fields, due table rowKey ∧
      view table rowKey = some fields ∧ ∃ combinations, table.expandKey rowKey = .ok combinations ∧
        ∃ components ∈ combinations, node = change table (table.instanceNode fields components) := by
  obtain ⟨rows, nodes, each, translated, perm⟩ := gathers.instances table known
  rw [perm.mem_iff, List.mem_map]
  constructor
  · rintro ⟨own, member, rfl⟩
    obtain ⟨rowKey, fields, row, combinations, expanded, components, chosen, rfl⟩ :=
      (Forest.mem_rowsNodes_iff translated).mp member
    obtain ⟨isDue, seen⟩ := (each rowKey fields).mp row
    exact ⟨rowKey, fields, isDue, seen, combinations, expanded, components, chosen, rfl⟩
  · rintro ⟨rowKey, fields, isDue, seen, combinations, expanded, components, chosen, rfl⟩
    exact ⟨_, (Forest.mem_rowsNodes_iff translated).mpr ⟨rowKey, fields,
      (each rowKey fields).mpr ⟨isDue, seen⟩, combinations, expanded, components, chosen, rfl⟩, rfl⟩

/-- The key of a due row that is there stands for list instances. -/
theorem exists_components (gathers : document.Gathers schema view due change) {table : TableSchema}
    (known : schema.table? table.name = some table) {rowKey : String} {fields : Fields}
    (isDue : due table rowKey) (seen : view table rowKey = some fields) :
    ∃ combinations, table.expandKey rowKey = .ok combinations ∧
      ∃ components, components ∈ combinations := by
  obtain ⟨rows, nodes, each, translated, _⟩ := gathers.instances table known
  obtain ⟨combinations, expanded, _⟩ :=
    TableSchema.expands_of_rowsNodes translated ((each rowKey fields).mpr ⟨isDue, seen⟩)
  exact ⟨combinations, expanded, TableSchema.exists_mem_of_expandKey expanded⟩

/-- A document that gathers rows, some of them joined to themselves, gathers other ones just as they are
exactly if of the rows that are there no more are due, and joining them changes nothing. The rows that are
joined belong to tables that are due whole, and other tables of which a row is due have single-valued
keys. -/
theorem iff_of_rejoined (sound : schema.IsSound)
    (gathers : document.Gathers schema view due fun table => TableSchema.rejoined (keys table))
    (less : ∀ table rowKey, due table rowKey → more table rowKey)
    (narrow : ∀ table, schema.table? table.name = some table → ∀ rowKey, due table rowKey →
      (∀ other, due table other) ∨ table.IsSingle)
    (reloaded : ∀ table, schema.table? table.name = some table → ∀ rowKey ∈ keys table,
      due table rowKey ∧ table.IsSingle) :
    (document.Gathers schema view more fun _ node => node) ↔
      (∀ table, schema.table? table.name = some table → ∀ rowKey, (view table rowKey).isSome →
        more table rowKey → due table rowKey) ∧
      ∀ table, schema.table? table.name = some table → ∀ rowKey ∈ keys table, ∀ fields,
        view table rowKey = some fields →
          Forest.joined (table.rowNode rowKey fields) (table.rowNode rowKey fields) =
            table.rowNode rowKey fields := by
  constructor
  · intro plain
    refine ⟨fun table known rowKey there isDue => ?_, fun table known rowKey member fields seen => ?_⟩
    · obtain ⟨fields, seen⟩ := Option.isSome_iff_exists.mp there
      obtain ⟨combinations, expanded, components, chosen⟩ := plain.exists_components known isDue seen
      obtain ⟨rowOther, fieldsOther, otherDue, _, others, otherExpanded, parts, otherChosen, same⟩ :=
        (gathers.mem_instancesIn known).mp ((plain.mem_instancesIn known).mpr
          ⟨rowKey, fields, isDue, seen, combinations, expanded, components, chosen, rfl⟩)
      rcases narrow table known rowOther otherDue with whole | single
      · exact whole rowKey
      · have labels := (congrArg Node.label same).trans (TableSchema.label_rejoined _ _)
        rwa [single.eq_of_label_eq (sound _ table known).2.named expanded chosen otherExpanded
          otherChosen labels]
    · obtain ⟨isDue, single⟩ := reloaded table known rowKey member
      have named := (sound _ table known).2.named
      obtain ⟨combinations, expanded, components, chosen⟩ := gathers.exists_components known isDue seen
      obtain ⟨rowOther, fieldsOther, _, otherSeen, others, otherExpanded, parts, otherChosen, same⟩ :=
        (plain.mem_instancesIn known).mp ((gathers.mem_instancesIn known).mpr
          ⟨rowKey, fields, isDue, seen, combinations, expanded, components, chosen, rfl⟩)
      have labels := (TableSchema.label_rejoined _ _).symm.trans (congrArg Node.label same)
      cases single.eq_of_label_eq named expanded chosen otherExpanded otherChosen labels
      cases seen.symm.trans otherSeen
      rwa [single.rejoined_eq named expanded chosen, if_pos member,
        (single.instanceNode_eq named otherExpanded otherChosen fields).1] at same
  · rintro ⟨complete, unchanged⟩
    refine gathers.congr (fun table known rowKey there => ⟨less table rowKey, ?_⟩) less ?_
    · exact complete table known rowKey there
    · intro table known rowKey fields isDue seen combinations expanded components chosen
      by_cases some : ∃ key, key ∈ keys table
      · obtain ⟨key, inside⟩ := some
        obtain ⟨_, single⟩ := reloaded table known key inside
        have named := (sound _ table known).2.named
        rw [single.rejoined_eq named expanded chosen,
          (single.instanceNode_eq named expanded chosen fields).1]
        exact ite_eq_right_iff.mpr fun member => unchanged table known rowKey member fields seen
      · exact if_neg fun inside => some ⟨_, inside⟩

/-- A document that gathers rows, some of them joined to themselves, contains the values that due rows say
directly below their list instances, and no others. -/
theorem containsValue_iff (sound : schema.IsSound) (placed : document.trees.IsPlaced schema)
    (gathers : document.Gathers schema view due fun table => TableSchema.rejoined (keys table))
    {name leaf value : String} :
    document.roots.containsValue name leaf value = true ↔
      ∃ table rowKey fields, schema.table? name = some table ∧ due table rowKey ∧
        view table rowKey = some fields ∧ table.Says rowKey fields leaf value := by
  rw [← Forest.containsValue_bare]
  change document.trees.containsValue name leaf value = true ↔ _
  constructor
  · intro contains
    obtain ⟨root, top, container, below, isTable, _⟩ := Forest.holds_of_containsValue contains
    obtain ⟨table, known, _, _, label⟩ := placed.exists_table top below
    have named : table.name = name := by
      simp only [Node.isTable, Node.name, label, Label.plain, Bool.and_eq_true,
        decide_eq_true_iff] at isTable
      exact isTable.2
    subst named
    obtain ⟨node, listed, held⟩ := List.any_eq_true.mp contains
    rw [placed.listInstances_eq known] at listed
    obtain ⟨rowKey, fields, isDue, seen, combinations, expanded, components, chosen, rfl⟩ :=
      (gathers.mem_instancesIn known).mp (List.mem_filter.mp listed).1
    refine ⟨table, rowKey, fields, known, isDue, seen, combinations, expanded, components, chosen, ?_⟩
    exact (TableSchema.mem_leafValues_rejoined (sound _ table known).2 expanded chosen _ fields).mp
      (List.contains_iff_mem.mp held)
  · rintro ⟨table, rowKey, fields, known, isDue, seen, combinations, expanded, components, chosen, held⟩
    cases (sound _ table known).1
    have inside := (gathers.mem_instancesIn known).mpr
      ⟨rowKey, fields, isDue, seen, combinations, expanded, components, chosen, rfl⟩
    refine List.any_eq_true.mpr ⟨_, ?_, List.contains_iff_mem.mpr ((TableSchema.mem_leafValues_rejoined
      (sound _ table known).2 expanded chosen (keys table) fields).mpr held)⟩
    rw [placed.listInstances_eq known]
    refine List.mem_filter.mpr ⟨inside, ?_⟩
    rw [Node.isInstance, Node.kind, TableSchema.label_rejoined]
    rfl

end Document.Gathers

/-- The document of rows gathers all of them. -/
theorem Document.gathers_ofRows {schema : Schema} (sound : schema.IsSound) {rows : TableRows}
    {document : Document} (translated : ofRows schema rows = .ok document) :
    document.trees.IsPlaced schema ∧
      document.Gathers schema (fun table rowKey => (rows.keyed table.name)[rowKey]?) (fun _ _ => True)
        fun _ node => node := by
  obtain ⟨forest, made, rfl⟩ := Except.map_eq_ok_iff.mp translated
  obtain ⟨placed, reached⟩ := Forest.reach?_of_foldlM_addTable sound rows.nodup_toList
    Forest.IsPlaced.nil (fun _ _ _ => rfl) made
  have same : (ofForest forest).trees = forest := by
    rw [trees_ofForest, Forest.bare_tree]
  rw [← same] at placed reached
  refine ⟨placed, fun table known => ?_, fun container member => ?_⟩
  · obtain ⟨added, untouched⟩ := reached table known
    rw [placed.instancesIn_eq known]
    cases stored : rows[table.name]? with
    | some keyed =>
        obtain ⟨nodes, translated, found⟩ := added keyed
          (Std.ExtTreeMap.mem_toList_iff_getElem?_eq_some.mpr stored)
        refine ⟨keyed, nodes, fun rowKey fields => ?_, translated, ?_⟩
        · simp [TableRows.keyed, stored]
        · rw [found, List.map_id']
          exact .refl nodes
    | none =>
        have outside : table.name ∉ rows.toList.map Prod.fst := by
          intro inside
          obtain ⟨⟨name, keyed⟩, member, rfl⟩ := List.mem_map.mp inside
          rw [Std.ExtTreeMap.mem_toList_iff_getElem?_eq_some.mp member] at stored
          cases stored
        refine ⟨∅, [], fun rowKey fields => ?_, rfl, ?_⟩
        · simp [TableRows.keyed, stored]
        · rw [untouched outside]
          exact .refl []
  · obtain ⟨root, top, below⟩ := List.mem_flatMap.mp member
    obtain ⟨table, known, _, _, label⟩ := placed.exists_table top below
    exact ⟨table, "", known, congrArg Label.name label, trivial⟩

end ConfigVetting
