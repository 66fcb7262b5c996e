import ConfigVetting.Proofs.Document.Joining
import ConfigVetting.Proofs.Document.Places
import ConfigVetting.Proofs.Schema.References

/-! # What documents hold

A value that a document holds in a leaf of a table is one that a row says of which it was made
(`ConfigVetting.Document.exists_of_holds_ofRows`). Merging adds nothing that neither document holds
(`ConfigVetting.Document.holds_of_merge`).
-/

namespace ConfigVetting

namespace Forest

variable {σ : Type}

/-- Whether a list instance of a table in a forest has a value in a leaf. -/
def Holds (forest : Forest σ) (table field value : String) : Prop :=
  ∃ root ∈ forest, ∃ container ∈ root.children, container.isTable table = true ∧
    ∃ node ∈ container.children, value ∈ node.leafValues field

/-- A list instance that is found stands in a container of its table. -/
theorem exists_container_of_mem {forest : Forest σ} {table : String} {node : Node σ}
    (inside : node ∈ forest.listInstances table) :
    ∃ root ∈ forest, ∃ container ∈ root.children, container.isTable table = true ∧
      node ∈ container.children := by
  unfold listInstances at inside
  cases found : forest.tableContainer? table with
  | none => simp [found] at inside
  | some container =>
      simp only [found] at inside
      obtain ⟨root, owner, below⟩ := Option.bind_eq_some_iff.mp found
      exact ⟨root, List.mem_of_find?_eq_some owner, container, List.mem_of_find?_eq_some below,
        List.find?_some below, (List.mem_filter.mp inside).1⟩

/-- A value that is found in a forest is held there. -/
theorem holds_of_containsValue {forest : Forest σ} {table field value : String}
    (contains : forest.containsValue table field value = true) : forest.Holds table field value := by
  obtain ⟨node, listed, held⟩ := List.any_eq_true.mp contains
  obtain ⟨root, top, container, below, isTable, inside⟩ := exists_container_of_mem listed
  exact ⟨root, top, container, below, isTable, node, inside, List.contains_iff_mem.mp held⟩

/-! ## Joined forests -/

/-- Each node after a join was there, was brought, or is a node joined with the one brought. -/
theorem mem_joinInto {node source : Tree} {siblings : Forest Unit}
    (inside : node ∈ source.joinInto siblings) :
    node ∈ siblings ∨ node = source ∨
      ∃ target ∈ siblings, target.label.sameNode source.label = true ∧
        node = joined target source := by
  obtain ⟨slot, label, children⟩ := source
  rw [Node.joinInto] at inside
  by_cases listed : label.kind = .leafList
  · rw [if_pos listed] at inside
    exact Or.inl inside
  · rw [if_neg listed] at inside
    simp only at inside
    cases split : siblings.dropWhile fun node => !node.label.sameNode label with
    | nil =>
        simp only [split, List.mem_append, List.mem_singleton] at inside
        exact inside.imp_right Or.inl
    | cons target after =>
        simp only [split, List.mem_append, List.mem_cons] at inside
        have rest : ∀ other ∈ target :: after, other ∈ siblings := fun other member =>
          (List.dropWhile_suffix _).subset (split ▸ member)
        rcases inside with before | rfl | later
        · exact Or.inl ((List.takeWhile_prefix _).subset before)
        · refine Or.inr (Or.inr ⟨target, rest target List.mem_cons_self, ?_, rfl⟩)
          have differs := List.head?_dropWhile_not (fun node => !node.label.sameNode label) siblings
          rw [split] at differs
          change target.label.sameNode label = true
          simpa using differs
        · exact Or.inl (rest node (List.mem_cons_of_mem _ later))

/-- What holds of a joined node holds of one of those it is joined from, if it does for two nodes. -/
theorem exists_of_joinEach {holds : Tree → Prop}
    (splits : ∀ target source, target.label.sameNode source.label = true →
      holds (joined target source) → holds target ∨ holds source)
    {siblings source : Forest Unit} (found : ∃ node ∈ siblings.joinEach source, holds node) :
    (∃ node ∈ siblings, holds node) ∨ ∃ node ∈ source, holds node := by
  induction source generalizing siblings with
  | nil => exact Or.inl found
  | cons first rest ih =>
      rw [joinEach] at found
      rcases ih found with ⟨node, inside, own⟩ | ⟨node, inside, own⟩
      · rcases mem_joinInto inside with before | rfl | ⟨target, member, same, rfl⟩
        · exact Or.inl ⟨node, before, own⟩
        · exact Or.inr ⟨node, List.mem_cons_self, own⟩
        · exact (splits target first same own).imp (fun left => ⟨target, member, left⟩)
            fun right => ⟨first, List.mem_cons_self, right⟩
      · exact Or.inr ⟨node, List.mem_cons_of_mem _ inside, own⟩

private theorem mem_withMembers {siblings members : Forest Unit} {name : String} {node : Tree}
    (inside : node ∈ siblings.withMembers name members) : node ∈ siblings ∨ node ∈ members := by
  unfold withMembers at inside
  rcases List.mem_append.mp inside with front | back
  · rcases List.mem_append.mp front with before | member
    · exact Or.inl (List.mem_filter.mp (List.mem_of_mem_take before)).1
    · exact Or.inr member
  · exact Or.inl (List.mem_filter.mp (List.mem_of_mem_drop back)).1

private theorem mem_joinLists {siblings source : Forest Unit} {node : Tree}
    (inside : node ∈ siblings.joinLists source) : node ∈ siblings ∨ node ∈ source := by
  have lists : ∀ list ∈ source.leafLists, ∀ member ∈ list.2, member ∈ source := by
    intro list member
    obtain ⟨name, _, rfl⟩ := List.mem_map.mp member
    exact fun node inside => (List.mem_filter.mp (List.mem_filter.mp inside).1).1
  unfold joinLists at inside
  generalize source.leafLists = lists' at lists inside
  induction lists' generalizing siblings with
  | nil => exact Or.inl inside
  | cons list others ih =>
      rw [List.forall_mem_cons] at lists
      rcases ih lists.2 inside with before | later
      · exact (mem_withMembers before).imp_right (lists.1 node)
      · exact Or.inr later

/-- What holds of a node of a join holds of a node on one side, if it does for two joined nodes. -/
theorem exists_of_join {holds : Tree → Prop}
    (splits : ∀ target source, target.label.sameNode source.label = true →
      holds (joined target source) → holds target ∨ holds source)
    {siblings source : Forest Unit} (found : ∃ node ∈ siblings.join source, holds node) :
    (∃ node ∈ siblings, holds node) ∨ ∃ node ∈ source, holds node := by
  rcases exists_of_joinEach splits found with ⟨node, inside, own⟩ | right
  · exact (mem_joinLists inside).imp (fun left => ⟨node, left, own⟩) fun right => ⟨node, right, own⟩
  · exact Or.inr right

private theorem name_kind_of_sameNode {first second : Label} (same : first.sameNode second = true) :
    first.name = second.name ∧ first.kind = second.kind := by
  obtain ⟨name, kind, key, value⟩ := first
  obtain ⟨otherName, otherKind, otherKey, otherValue⟩ := second
  unfold Label.sameNode at same
  rw [Bool.and_eq_true, decide_eq_true_iff] at same
  refine ⟨same.1, ?_⟩
  have kinds := same.2
  cases kind <;> cases otherKind <;> first | rfl | cases kinds

theorem label_joined (target source : Tree) :
    (joined target source).name = target.name ∧ (joined target source).kind = target.kind := by
  unfold joined
  by_cases leaf : source.kind = .leaf
  · rw [if_pos leaf]
    exact ⟨rfl, rfl⟩
  · rw [if_neg leaf]
    exact ⟨rfl, rfl⟩

/-- What holds of a child of a joined node holds of a child of one of the two. -/
theorem exists_child_of_joined {holds : Tree → Prop}
    (splits : ∀ target source, target.label.sameNode source.label = true →
      holds (joined target source) → holds target ∨ holds source)
    {target source : Tree} (found : ∃ child ∈ (joined target source).children, holds child) :
    (∃ child ∈ target.children, holds child) ∨ ∃ child ∈ source.children, holds child := by
  unfold joined at found
  by_cases leaf : source.kind = .leaf
  · rw [if_pos leaf] at found
    exact Or.inl found
  · rw [if_neg leaf] at found
    exact exists_of_join splits found

/-- A value in a leaf of a joined node is one of the two nodes. -/
theorem mem_leafValues_joined {target source : Tree} {field value : String}
    (inside : value ∈ (joined target source).leafValues field) :
    value ∈ target.leafValues field ∨ value ∈ source.leafValues field := by
  simp only [Node.mem_leafValues_iff] at inside ⊢
  refine exists_child_of_joined (fun target source same own => ?_) inside
  obtain ⟨named, kind, held⟩ := own
  obtain ⟨sameName, sameKind⟩ := name_kind_of_sameNode same
  rw [(label_joined target source).1] at named
  rw [(label_joined target source).2] at kind
  unfold joined at held
  by_cases leaf : source.kind = .leaf
  · rw [if_pos leaf] at held
    exact Or.inr ⟨sameName.symm.trans named, Or.inl leaf, held⟩
  · rw [if_neg leaf] at held
    exact Or.inl ⟨named, kind, held⟩

/-- A join holds what one of its sides holds. -/
theorem holds_of_join {forest source : Forest Unit} {table field value : String}
    (held : (forest.join source).Holds table field value) :
    forest.Holds table field value ∨ source.Holds table field value := by
  refine exists_of_join (fun root other _ found => ?_) held
  refine exists_child_of_joined (fun container another same found => ?_) found
  obtain ⟨isTable, inside⟩ := found
  obtain ⟨sameName, sameKind⟩ := name_kind_of_sameNode same
  have ofTarget : container.isTable table = true := by
    unfold Node.isTable at isTable ⊢
    rwa [(label_joined container another).1,
      (label_joined container another).2] at isTable
  have ofSource : another.isTable table = true := by
    unfold Node.isTable at ofTarget ⊢
    rwa [Node.kind, Node.name, ← sameKind, ← sameName]
  exact (exists_child_of_joined (fun _ _ _ => mem_leafValues_joined) inside).imp
    (fun left => ⟨ofTarget, left⟩) fun right => ⟨ofSource, right⟩

/-! ## Forests of rows -/

/-- Adding the container of a table adds no other container. -/
theorem mem_containers_addTable {forest instances : Forest Unit} {table : TableSchema}
    {container : Tree} :
    container ∈ (forest.addTable table instances).flatMap Node.children ↔
      container ∈ forest.flatMap Node.children ∨
        container = .tree (.plain table.name .container) instances := by
  unfold addTable
  by_cases some : forest.any fun node => decide (node.name = table.moduleName) &&
      decide (node.kind = .module)
  · obtain ⟨root, found⟩ := Option.isSome_iff_exists.mp (List.find?_isSome.mpr
      (List.any_eq_true.mp some))
    obtain ⟨chosen, before, after, rfl, others⟩ := List.find?_eq_some_iff_append.mp found
    simp only
    rw [if_pos some, modifyFirst_of_split
      (fun other member => Bool.not_eq_true' _ ▸ others other member) chosen]
    simp only [List.flatMap_append, List.flatMap_cons, List.mem_append, Node.withChildren,
      Node.children, List.mem_singleton]
    tauto
  · simp only
    rw [if_neg some]
    simp [Node.tree, Node.children]

/-- Whether a container is that of a table with some rows. -/
def IsContainerOf (schema : Schema) (entry : String × KeyedRows) (container : Tree) : Prop :=
  ∃ table nodes, schema.table? entry.1 = some table ∧ table.rowsNodes entry.2 = .ok nodes ∧
    container = .tree (.plain table.name .container) nodes

/-- The containers of a forest of rows are those of its tables. -/
theorem mem_containers_of_foldlM {schema : Schema} {entries : List (String × KeyedRows)}
    {start forest : Forest Unit}
    (made : entries.foldlM (fun forest (name, keyed) => do
      let table ← schema.knownTable name
      return forest.addTable table (← table.rowsNodes keyed)) start = .ok forest) :
    (∀ entry ∈ entries, ∃ container, IsContainerOf schema entry container) ∧
      ∀ container, container ∈ forest.flatMap Node.children ↔
        container ∈ start.flatMap Node.children ∨
          ∃ entry ∈ entries, IsContainerOf schema entry container := by
  induction entries generalizing start with
  | nil =>
      cases made
      simp
  | cons entry entries ih =>
      obtain ⟨name, keyed⟩ := entry
      rw [List.foldlM_cons] at made
      obtain ⟨middle, stepped, rest⟩ := Except.bind_eq_ok_iff.mp made
      obtain ⟨table, known, added⟩ := Except.bind_eq_ok_iff.mp stepped
      obtain ⟨nodes, translated, answered⟩ := Except.bind_eq_ok_iff.mp added
      cases answered
      obtain ⟨others, members⟩ := ih rest
      have own : ∀ container, IsContainerOf schema (name, keyed) container ↔
          container = .tree (.plain table.name .container) nodes := by
        intro container
        constructor
        · rintro ⟨again, nodesAgain, knownAgain, translatedAgain, rfl⟩
          cases (Schema.knownTable_eq_ok_iff.mp known).symm.trans knownAgain
          cases translated.symm.trans translatedAgain
          rfl
        · exact fun same => ⟨table, nodes, Schema.knownTable_eq_ok_iff.mp known, translated, same⟩
      refine ⟨List.forall_mem_cons.mpr ⟨⟨_, (own _).mpr rfl⟩, others⟩, fun container => ?_⟩
      rw [members, mem_containers_addTable, ← own, List.exists_mem_cons_iff, or_assoc]

/-- Each node that rows are translated to stands for one combination of one row. -/
theorem mem_rowsNodes_iff {table : TableSchema} {rows : KeyedRows} {nodes : Forest Unit}
    (translated : table.rowsNodes rows = .ok nodes) {node : Tree} :
    node ∈ nodes ↔ ∃ rowKey fields, rows[rowKey]? = some fields ∧ ∃ combinations,
      table.expandKey rowKey = .ok combinations ∧ ∃ components ∈ combinations,
        node = table.instanceNode fields components := by
  constructor
  · intro member
    obtain ⟨each, mapped, rfl⟩ := Except.map_eq_ok_iff.mp translated
    obtain ⟨instances, inside, member⟩ := List.mem_flatten.mp member
    obtain ⟨⟨rowKey, fields⟩, stored, own⟩ :=
      Except.exists_of_mem_right (Except.mapM_eq_ok_iff.mp mapped) inside
    obtain ⟨combinations, expanded, rfl⟩ := Except.map_eq_ok_iff.mp own
    obtain ⟨components, chosen, rfl⟩ := List.mem_map.mp member
    exact ⟨rowKey, fields, Std.ExtTreeMap.mem_toList_iff_getElem?_eq_some.mp stored, combinations,
      expanded, components,
      chosen, rfl⟩
  · rintro ⟨rowKey, fields, stored, combinations, expanded, components, chosen, rfl⟩
    obtain ⟨again, expandedAgain, instances⟩ := TableSchema.expands_of_rowsNodes translated stored
    cases expanded.symm.trans expandedAgain
    exact instances components chosen

end Forest

namespace Document

/-- What the document of rows holds is said by one of the rows. -/
theorem exists_of_holds_ofRows {schema : Schema} (sound : schema.IsSound) {rows : TableRows}
    {document : Document} (translated : ofRows schema rows = .ok document) {table : TableSchema}
    (known : schema.table? table.name = some table) {field value : String}
    (held : document.trees.Holds table.name field value) :
    ∃ rowKey fields, (rows.keyed table.name)[rowKey]? = some fields ∧
      table.Says rowKey fields field value := by
  obtain ⟨forest, made, rfl⟩ := Except.map_eq_ok_iff.mp translated
  rw [trees_ofForest, Forest.bare_tree] at held
  obtain ⟨root, top, container, below, isTable, node, inside, member⟩ := held
  obtain ⟨_, members⟩ := Forest.mem_containers_of_foldlM made
  have listed := (members container).mp (List.mem_flatMap.mpr ⟨root, top, below⟩)
  obtain ⟨⟨name, keyed⟩, stored, again, nodes, knownAgain, nodesOf, rfl⟩ :=
    listed.resolve_left (by simp)
  have named : again.name = table.name := of_decide_eq_true isTable
  have own := (sound name again knownAgain).1
  rw [own] at named
  subst named
  cases known.symm.trans knownAgain
  obtain ⟨rowKey, fields, row, combinations, expanded, components, chosen, rfl⟩ :=
    (Forest.mem_rowsNodes_iff nodesOf).mp inside
  refine ⟨rowKey, fields, ?_, combinations, expanded, components, chosen, member⟩
  rw [TableRows.keyed, Std.ExtTreeMap.mem_toList_iff_getElem?_eq_some.mp stored]
  exact row

/-- The document of rows has the list instances of each row in the container of its table. -/
theorem exists_container_ofRows {schema : Schema} {rows : TableRows} {document : Document}
    (translated : ofRows schema rows = .ok document) {table : TableSchema}
    (known : schema.table? table.name = some table) {rowKey : String} {fields : Fields}
    (row : (rows.keyed table.name)[rowKey]? = some fields) :
    ∃ container ∈ document.trees.flatMap Node.children, container.name = table.name ∧
      ∀ combinations, table.expandKey rowKey = .ok combinations → ∀ components ∈ combinations,
        table.instanceNode fields components ∈ container.children := by
  obtain ⟨forest, made, rfl⟩ := Except.map_eq_ok_iff.mp translated
  rw [trees_ofForest, Forest.bare_tree]
  obtain ⟨each, members⟩ := Forest.mem_containers_of_foldlM made
  cases stored : rows[table.name]? with
  | none =>
      rw [TableRows.keyed, stored] at row
      cases row
  | some keyed =>
      rw [TableRows.keyed, stored, Option.getD_some] at row
      have entry := Std.ExtTreeMap.mem_toList_iff_getElem?_eq_some.mpr stored
      obtain ⟨container, own⟩ := each _ entry
      obtain ⟨again, nodes, knownAgain, nodesOf, rfl⟩ := own
      cases known.symm.trans knownAgain
      refine ⟨_, (members _).mpr (Or.inr ⟨_, entry, table, nodes, known, nodesOf, rfl⟩), rfl,
        fun combinations expanded components chosen => ?_⟩
      exact (Forest.mem_rowsNodes_iff nodesOf).mpr
        ⟨rowKey, fields, row, combinations, expanded, components, chosen, rfl⟩

/-- A document that another one is merged into holds what one of them holds. -/
theorem holds_of_merge {σ : Type} {document : Document} {source : Forest σ}
    {table field value : String} (held : (document.merge source).trees.Holds table field value) :
    document.trees.Holds table field value ∨ source.bare.Holds table field value := by
  rw [trees_merge] at held
  exact Forest.holds_of_join held

end Document

end ConfigVetting
