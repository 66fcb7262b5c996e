import ConfigVetting.Proofs.Document.Changes
import ConfigVetting.Proofs.Document.Contents
import ConfigVetting.Proofs.Document.SingleKeys
import ConfigVetting.Proofs.World.Reading
import ConfigVetting.Proofs.World.StoredRows
import Mathlib.Algebra.BigOperators.Group.Finset.Basic
import Mathlib.Algebra.Order.Group.Multiset

/-! # Counting list instances

Rows with repeating key components share list instances, and taking out one of the rows takes out an
instance that the other one stands for too. So a document may hold less than its rows, but it never
holds more: of each key there are no more list instances than the rows have together
(`ConfigVetting.Document.IsCovered`). Laying a row over the document keeps that, in tables that join
plainly (`ConfigVetting.Document.isCovered_of_overlayRow`).
-/

namespace ConfigVetting

namespace TableSchema

variable {table : TableSchema}

/-- The keys of the list instances of a row. -/
def instanceKeys (table : TableSchema) (rowKey : String) : List String :=
  match table.expandKey rowKey with
  | .ok combinations => combinations.map table.instanceKey
  | .error _ => []

/-- A row has one key of an instance for each of its combinations. -/
theorem instanceKeys_eq {rowKey : String} {combinations : List (List String)}
    (expanded : table.expandKey rowKey = .ok combinations) :
    table.instanceKeys rowKey = combinations.map table.instanceKey := by
  unfold instanceKeys
  rw [expanded]

/-- The keys of the instances of a row are those of its combinations. -/
theorem mem_instanceKeys_iff {rowKey key : String} :
    key ∈ table.instanceKeys rowKey ↔ ∃ combinations, table.expandKey rowKey = .ok combinations ∧
      ∃ components ∈ combinations, table.instanceKey components = key := by
  unfold instanceKeys
  cases table.expandKey rowKey with
  | error rejection => simp
  | ok combinations => simp

/-- Whether a node is the list instance of some key components, as far as its key goes. -/
structure IsInstanceOf (table : TableSchema) (components : List String) (node : Tree) : Prop where
  label : node.label = .listInstance table.listName (table.instanceKey components)
  holds : ∀ field value, table.isKey field = true → value ∈ node.leafValues field →
    (field, value) ∈ table.keyNames.zip components

/-- Whether a node is a list instance of a row, as far as its key goes. -/
def IsInstance (table : TableSchema) (node : Tree) : Prop :=
  ∃ rowKey combinations components, table.expandKey rowKey = .ok combinations ∧
    components ∈ combinations ∧ table.IsInstanceOf components node

private theorem isInstanceOf_instanceNode (fields : Fields) (components : List String) :
    table.IsInstanceOf components (table.instanceNode fields components) where
  label := rfl
  holds field value isKey member := by
    rcases mem_leafValues_instanceNode_iff.mp member with own | ⟨name, text, _, given⟩
    · exact own
    · rw [(of_mem_textValues given).2.1] at isKey
      cases isKey

/-- In a table that joins plainly, list instances with the same key have the same key components. -/
theorem JoinsPlainly.components_eq (joins : table.JoinsPlainly) (sound : table.IsSound)
    {rowKey otherKey : String} {combinations others : List (List String)}
    (expanded : table.expandKey rowKey = .ok combinations)
    (otherExpanded : table.expandKey otherKey = .ok others) {first second : List String}
    (member : first ∈ combinations) (otherMember : second ∈ others)
    (same : table.instanceKey first = table.instanceKey second) : first = second := by
  have again := joins.expandKey_instanceKey sound expanded member
  rw [same, joins.expandKey_instanceKey sound otherExpanded otherMember] at again
  exact ((List.cons.inj (Except.ok.inj again)).1).symm

/-- A list instance with another one of the same key joined to it is one. -/
theorem isInstance_joined (joins : table.JoinsPlainly) (sound : table.IsSound)
    {target source : Tree} (ofTarget : table.IsInstance target) (ofSource : table.IsInstance source)
    (same : target.label.sameNode source.label = true) :
    table.IsInstance (Forest.joined target source) := by
  obtain ⟨rowKey, combinations, components, expanded, member, own⟩ := ofTarget
  obtain ⟨otherKey, others, otherComponents, otherExpanded, otherMember, otherOwn⟩ := ofSource
  rw [own.label, otherOwn.label] at same
  have sameKey : table.instanceKey components = table.instanceKey otherComponents := by
    simpa [Label.sameNode, Label.listInstance] using same
  cases joins.components_eq sound expanded otherExpanded member otherMember sameKey
  refine ⟨rowKey, combinations, components, expanded, member, ?_, fun field value isKey held => ?_⟩
  · have noLeaf : source.kind ≠ .leaf := by
      rw [Node.kind, otherOwn.label]
      exact (Label.isSolid_listInstance _ _).noLeaf
    unfold Forest.joined
    rw [if_neg noLeaf, Node.label_withChildren, own.label]
  · exact (Forest.mem_leafValues_joined held).elim (own.holds field value isKey)
      (otherOwn.holds field value isKey)

end TableSchema

namespace Forest

variable {table : TableSchema} {nodes added : Forest Unit}

/-- The keys of the list instances of a forest, each as often as it stands there. -/
def keys (nodes : Forest Unit) : Multiset String :=
  ↑(nodes.filterMap Node.key)

private theorem keys_append (first second : Forest Unit) :
    keys (first ++ second) = first.keys + second.keys := by
  unfold keys
  rw [List.filterMap_append, Multiset.coe_add]

/-- Taking out the first list instance of a key takes out its key once. -/
theorem keys_eraseP (instances : ∀ node ∈ nodes, table.IsInstance node) (key : String) :
    keys (nodes.eraseP (Node.hasKey key)) = nodes.keys.erase key := by
  unfold keys
  rw [Multiset.coe_erase]
  refine congrArg _ ?_
  induction nodes with
  | nil => rfl
  | cons node nodes ih =>
      rw [List.forall_mem_cons] at instances
      obtain ⟨⟨_, _, components, _, _, own⟩, rest⟩ := instances
      have keyed : node.key = some (table.instanceKey components) := by
        rw [Node.key, own.label]
        rfl
      have kind : node.isInstance = true := by
        rw [Node.isInstance, Node.kind, own.label]
        rfl
      rw [List.filterMap_cons_some keyed, List.erase_cons]
      by_cases same : table.instanceKey components = key
      · rw [List.eraseP_cons_of_pos (by simp [Node.hasKey, kind, keyed, same]),
          if_pos (by simp [same])]
      · rw [List.eraseP_cons_of_neg (by simp [Node.hasKey, keyed, same]),
          List.filterMap_cons_some keyed, if_neg (by simp [same]), ih rest]

/-- A list instance that is joined to its siblings adds its key once, or not at all. -/
theorem keys_joinInto {node : Tree} (isInstance : table.IsInstance node) (siblings : Forest Unit) :
    keys (node.joinInto siblings) ≤ siblings.keys + keys [node] := by
  obtain ⟨_, _, components, _, _, own⟩ := isInstance
  obtain ⟨slot, label, children⟩ := node
  have solid : label.IsSolid := by
    have same : label = _ := own.label
    rw [same]
    exact Label.isSolid_listInstance _ _
  rw [Node.joinInto, if_neg solid.noMember]
  simp only
  cases split : siblings.dropWhile fun node => !node.label.sameNode label with
  | nil =>
      simp only
      rw [keys_append]
      rfl
  | cons target after =>
      simp only [if_neg solid.noLeaf]
      have whole := List.takeWhile_append_dropWhile (p := fun node : Tree =>
        !node.label.sameNode label) (l := siblings)
      rw [split] at whole
      have kept : keys ((siblings.takeWhile fun node => !node.label.sameNode label) ++
          target.withChildren (joinEach (target.children.joinLists children) children) :: after) =
          siblings.keys := by
        conv_rhs => rw [← whole]
        unfold keys
        rw [List.filterMap_append, List.filterMap_append]
        rfl
      rw [kept]
      exact Multiset.le_add_right _ _

/-- Joining list instances adds no more keys than they have, and leaves list instances. -/
theorem keys_join (joins : table.JoinsPlainly) (sound : table.IsSound)
    (instances : ∀ node ∈ nodes, table.IsInstance node)
    (addedInstances : ∀ node ∈ added, table.IsInstance node) :
    (∀ node ∈ nodes.join added, table.IsInstance node) ∧
      keys (nodes.join added) ≤ nodes.keys + added.keys := by
  have solid : ∀ node ∈ added, node.label.IsSolid := by
    intro node member
    obtain ⟨_, _, components, _, _, own⟩ := addedInstances node member
    rw [own.label]
    exact Label.isSolid_listInstance _ _
  rw [join, joinLists_of_solid solid]
  clear solid
  induction added generalizing nodes with
  | nil =>
      rw [joinEach]
      exact ⟨instances, Multiset.le_add_right _ _⟩
  | cons node added ih =>
      rw [List.forall_mem_cons] at addedInstances
      rw [joinEach]
      have stepInstances : ∀ one ∈ node.joinInto nodes, table.IsInstance one := by
        intro one inside
        rcases mem_joinInto inside with before | rfl | ⟨target, member, same, rfl⟩
        · exact instances one before
        · exact addedInstances.1
        · exact TableSchema.isInstance_joined joins sound (instances target member)
            addedInstances.1 same
      obtain ⟨joinedInstances, bound⟩ := ih stepInstances addedInstances.2
      refine ⟨joinedInstances, ?_⟩
      calc keys ((node.joinInto nodes).joinEach added)
          ≤ keys (node.joinInto nodes) + keys added := bound
        _ ≤ keys nodes + keys [node] + keys added :=
            add_le_add (keys_joinInto addedInstances.1 nodes) le_rfl
        _ = keys nodes + keys (node :: added) := by
            rw [add_assoc, ← keys_append, List.singleton_append]

/-- Joining the trees of a table joins its list instances. -/
theorem join_forestOf (table : TableSchema) (nodes added : Forest Unit) :
    (table.forestOf nodes).join (table.forestOf added) = table.forestOf (nodes.join added) := by
  have single : ∀ {label : Label} (_ : label.IsSolid) (first second : Forest Unit),
      join [.tree label first] [.tree label second] = [.tree label (first.join second)] := by
    intro label solid first second
    rw [@join_single (.tree label second) solid]
    exact @Node.joinInto_of_present [] [] _ (isOrderly_single solid first) _ solid rfl
      fun _ member => absurd member List.not_mem_nil
  unfold TableSchema.forestOf
  rw [single (Label.isSolid_module _), single (Label.isSolid_container _)]

/-- Taking a list instance out of the trees of a table takes it out of its list instances. -/
theorem withoutInstance_forestOf (table : TableSchema) (nodes : Forest Unit) (key : String) :
    (table.forestOf nodes).withoutInstance table.name key =
      table.forestOf (nodes.eraseP (Node.hasKey key)) := by
  have isTable : Node.isTable table.name
      (.tree (.plain table.name .container) nodes : Tree) = true := by
    simp [Node.isTable, Node.kind, Node.name, Node.tree, Node.label, Label.plain]
  have holdsTable : Node.holdsTable table.name (.tree (.plain table.moduleName .module)
      [.tree (.plain table.name .container) nodes] : Tree) = true :=
    List.any_eq_true.mpr ⟨_, List.mem_singleton_self _, isTable⟩
  unfold withoutInstance TableSchema.forestOf
  rw [modifyFirst_cons, if_pos holdsTable]
  change [_] = [_]
  refine congrArg (fun node => [node]) ?_
  change Node.withChildren _ (modifyFirst _ _ [_]) = _
  rw [modifyFirst_cons, if_pos isTable]
  rfl

/-- The list instance of a key among those of a table. -/
theorem findInstance?_forestOf (table : TableSchema) (nodes : Forest Unit) (key : String) :
    (table.forestOf nodes).findInstance? table.name key =
      (nodes.filter Node.isInstance).find? (Node.hasKey key) := by
  simp [findInstance?, listInstances, tableContainer?, tableModule?, TableSchema.forestOf,
    Node.holdsTable, Node.isTable, Node.tree, Node.children, Node.kind, Node.name, Node.label,
    Label.plain]

end Forest

namespace Document

open DocumentM

variable {schema : Schema} {table : TableSchema} {document later : Document}
  {bound : Multiset String} {rowKey : String}

/-- Whether a document holds a table alone and, if the table joins plainly, no more list instances
than there are in some keys. -/
def IsCounted (table : TableSchema) (bound : Multiset String) (document : Document) : Prop :=
  ∃ nodes, document.trees = table.forestOf nodes ∧
    (table.JoinsPlainly → (∀ node ∈ nodes, table.IsInstance node) ∧ nodes.keys ≤ bound)

private theorem IsCounted.mono {more : Multiset String} (counted : document.IsCounted table bound)
    (less : table.JoinsPlainly → bound ≤ more) : document.IsCounted table more := by
  obtain ⟨nodes, same, held⟩ := counted
  exact ⟨nodes, same, fun joins => ⟨(held joins).1, (held joins).2.trans (less joins)⟩⟩

private theorem IsCounted.compactIfSparse (counted : document.IsCounted table bound) :
    document.compactIfSparse.IsCounted table bound := by
  unfold IsCounted
  rw [trees_compactIfSparse]
  exact counted

/-- Taking out a list instance takes its key out of the count. -/
theorem IsCounted.removeInstance (counted : document.IsCounted table bound) (key : String) :
    (document.removeInstance table.name key).IsCounted table (bound.erase key) := by
  obtain ⟨nodes, same, held⟩ := counted
  refine ⟨nodes.eraseP (Node.hasKey key), ?_, fun joins =>
    ⟨fun node member => (held joins).1 node (List.mem_of_mem_eraseP member), ?_⟩⟩
  · rw [trees_removeInstance, same, Forest.findInstance?_forestOf, Forest.withoutInstance_forestOf]
    cases found : (nodes.filter Node.isInstance).find? (Node.hasKey key) with
    | some node => rfl
    | none =>
        have absent : ∀ node ∈ nodes, ¬ Node.hasKey key node = true := by
          intro node member own
          have isInstance : node.isInstance = true := (Bool.and_eq_true_iff.mp own).1
          exact List.find?_eq_none.mp found node (List.mem_filter.mpr ⟨member, isInstance⟩) own
        rw [List.eraseP_of_forall_not absent]
        rfl
  · rw [Forest.keys_eraseP (held joins).1]
    exact Multiset.erase_le_erase key (held joins).2

/-- Taking out a row takes its keys out of the count. -/
theorem IsCounted.removeRow (counted : document.IsCounted table bound)
    (removed : (removeRow table rowKey).outcome document = (.ok (), later)) :
    later.IsCounted table (bound - table.instanceKeys rowKey) := by
  obtain ⟨combinations, _, expanded, rest⟩ := outcome_bind_eq_ok_iff.mp removed
  rw [outcome_except, Prod.mk.injEq] at expanded
  obtain ⟨expanded, rfl⟩ := expanded
  rw [TableSchema.instanceKeys_eq expanded]
  clear expanded removed
  induction combinations generalizing document bound with
  | nil =>
      cases rest
      rwa [List.map_nil, Multiset.coe_nil, Multiset.sub_zero]
  | cons components combinations ih =>
      obtain ⟨_, middle, stepped, others⟩ := outcome_bind_eq_ok_iff.mp rest
      cases stepped
      rw [List.map_cons, ← Multiset.cons_coe, Multiset.sub_cons]
      exact ih (counted.removeInstance _) others

/-- Putting in a row adds its keys to the count. -/
theorem IsCounted.putRow (known : schema.table? table.name = some table) (sound : table.IsSound)
    (counted : document.IsCounted table bound) {fields : Fields}
    (put : (putRow schema table rowKey fields).outcome document = (.ok (), later)) :
    later.IsCounted table (bound + table.instanceKeys rowKey) := by
  obtain ⟨nodes, same, held⟩ := counted
  obtain ⟨source, _, translated, merged⟩ := outcome_bind_eq_ok_iff.mp put
  rw [outcome_except, Prod.mk.injEq] at translated
  obtain ⟨translated, rfl⟩ := translated
  cases merged
  rw [Forest.ofRows_single known] at translated
  obtain ⟨added, made, rfl⟩ := Except.map_eq_ok_iff.mp translated
  obtain ⟨combinations, expanded, rfl⟩ := Except.map_eq_ok_iff.mp made
  have addedInstances : ∀ node ∈ combinations.map (table.instanceNode fields),
      table.IsInstance node := by
    intro node member
    obtain ⟨components, chosen, rfl⟩ := List.mem_map.mp member
    exact ⟨rowKey, combinations, components, expanded, chosen,
      TableSchema.isInstanceOf_instanceNode fields components⟩
  refine ⟨nodes.join (combinations.map (table.instanceNode fields)), ?_, fun joins => ?_⟩
  · rw [trees_merge, same, Forest.bare_tree, Forest.join_forestOf]
  · obtain ⟨joined, less⟩ := Forest.keys_join joins sound (held joins).1 addedInstances
    refine ⟨joined, less.trans ?_⟩
    have keyed : Forest.keys (combinations.map (table.instanceNode fields)) =
        ↑(table.instanceKeys rowKey) := by
      unfold Forest.keys
      rw [TableSchema.instanceKeys_eq expanded, List.filterMap_map, ← List.filterMap_eq_map]
      rfl
    rw [keyed]
    exact add_le_add (held joins).2 le_rfl

/-- Changing the fields of a list instance keeps the count. -/
theorem IsCounted.patchInstance (known : schema.table? table.name = some table)
    (sound : table.IsSound) (counted : document.IsCounted table bound) {patch : Patch}
    {combinations : List (List String)}
    (expanded : table.expandKey rowKey = .ok combinations) {components : List String}
    (member : components ∈ combinations)
    (patched : (patchInstance schema table patch (table.instanceKey components)).outcome document =
      (.ok (), later)) : later.IsCounted table bound := by
  unfold Document.patchInstance at patched
  rw [outcome_bind, outcome_get] at patched
  cases found : document.roots.findInstance? table.name (table.instanceKey components) with
  | none =>
      simp only [found] at patched
      cases patched
      exact counted
  | some node =>
      simp only [found] at patched
      rw [outcome_modify_bind] at patched
      have put := (counted.removeInstance (table.instanceKey components)).putRow known sound patched
      refine put.mono fun joins => ?_
      have again := joins.expandKey_instanceKey sound expanded member
      rw [TableSchema.instanceKeys_eq again, List.map_singleton, Multiset.coe_singleton]
      have held : table.instanceKey components ∈ bound := by
        obtain ⟨nodes, same, held⟩ := counted
        have there := findInstance?_trees document table.name (table.instanceKey components)
        rw [found, same, Forest.findInstance?_forestOf] at there
        have chosen := List.mem_of_find?_eq_some there
        have own := List.find?_some there
        have keyed : node.bare.key = some (table.instanceKey components) :=
          of_decide_eq_true (Bool.and_eq_true_iff.mp own).2
        exact Multiset.mem_of_le (held joins).2 (Multiset.mem_coe.mpr
          (List.mem_filterMap.mpr ⟨node.bare, (List.mem_filter.mp chosen).1, keyed⟩))
      rw [Multiset.add_comm, Multiset.singleton_add, Multiset.cons_erase held]

end Document

namespace TableSchema

variable {table : TableSchema} {rows : Finset String} {rowKey : String}

/-- The keys of the list instances of some rows together. -/
def keysOfRows (table : TableSchema) (rows : Finset String) : Multiset String :=
  ∑ rowKey ∈ rows, (table.instanceKeys rowKey : Multiset String)

private theorem keysOfRows_erase (member : rowKey ∈ rows) :
    table.keysOfRows (rows.erase rowKey) + table.instanceKeys rowKey = table.keysOfRows rows :=
  Finset.sum_erase_add rows _ member

private theorem keysOfRows_sub_le (table : TableSchema) (rows : Finset String) (rowKey : String) :
    table.keysOfRows rows - table.instanceKeys rowKey ≤ table.keysOfRows (rows.erase rowKey) := by
  by_cases member : rowKey ∈ rows
  · rw [← keysOfRows_erase member, Multiset.add_sub_cancel_right]
  · rw [Finset.erase_eq_of_notMem member]
    exact Multiset.sub_le_self _ _

private theorem keysOfRows_insert_erase (table : TableSchema) (rows : Finset String) (rowKey : String) :
    table.keysOfRows (rows.erase rowKey) + table.instanceKeys rowKey =
      table.keysOfRows (insert rowKey rows) := by
  rw [← keysOfRows_erase (Finset.mem_insert_self rowKey rows), Finset.erase_insert_eq_erase]

/-- The list instances of rows have the keys of the rows, one row after another. -/
theorem map_key_of_rowsNodes {keyed : KeyedRows} {nodes : Forest Unit}
    (translated : table.rowsNodes keyed = .ok nodes) :
    nodes.map Node.key = (keyed.keys.flatMap table.instanceKeys).map some := by
  obtain ⟨each, mapped, rfl⟩ := Except.map_eq_ok_iff.mp translated
  have related := Except.mapM_eq_ok_iff.mp mapped
  rw [← Std.ExtTreeMap.map_fst_toList_eq_keys]
  clear mapped translated
  generalize keyed.toList = entries at related
  induction related with
  | nil => rfl
  | cons head _ ih =>
      obtain ⟨combinations, expanded, rfl⟩ := Except.map_eq_ok_iff.mp head
      rw [List.flatten_cons, List.map_append, ih, List.map_cons, List.flatMap_cons, List.map_append,
        instanceKeys_eq expanded, List.map_map, List.map_map]
      rfl

/-- The list instances of rows have the keys of the rows. -/
theorem keys_of_rowsNodes {keyed : KeyedRows} {nodes : Forest Unit}
    (translated : table.rowsNodes keyed = .ok nodes) :
    nodes.keys = table.keysOfRows (keyed.toList.map Prod.fst).toFinset := by
  have listed : nodes.filterMap Node.key = keyed.keys.flatMap table.instanceKeys := by
    rw [← Function.id_comp (Node.key : Tree → Option String), ← List.filterMap_map,
      map_key_of_rowsNodes translated, List.filterMap_map]
    exact List.filterMap_some
  unfold keysOfRows Forest.keys
  rw [List.sum_toFinset _ keyed.nodup_toList, listed, Std.ExtTreeMap.map_fst_toList_eq_keys,
    ← Multiset.coe_bind, Multiset.bind, Multiset.join, Multiset.map_coe, Multiset.sum_coe]

end TableSchema

/-- The rows that there may be after the state of a row is laid over others. -/
def RowState.liveAfter (state : RowState) (rowKey : String) (live : String → Prop)
    (other : String) : Prop :=
  match state with
  | .deleted => live other ∧ other ≠ rowKey
  | .present _ => live other ∨ other = rowKey
  | .overlay _ => live other

namespace Document

open DocumentM

variable {schema : Schema} {table : TableSchema} {document later : Document}
  {live : String → Prop} {rowKey : String}

/-- Whether a document holds a table alone, with no more list instances than some live rows have. -/
def IsCovered (table : TableSchema) (live : String → Prop) (document : Document) : Prop :=
  ∃ rows : Finset String, (∀ rowKey ∈ rows, live rowKey) ∧
    document.IsCounted table (table.keysOfRows rows)

/-- What covers some rows covers more of them. -/
theorem IsCovered.mono {more : String → Prop} (covered : document.IsCovered table live)
    (allowed : ∀ rowKey, live rowKey → more rowKey) : document.IsCovered table more := by
  obtain ⟨rows, inside, counted⟩ := covered
  exact ⟨rows, fun rowKey member => allowed rowKey (inside rowKey member), counted⟩

theorem IsCovered.compactIfSparse (covered : document.IsCovered table live) :
    document.compactIfSparse.IsCovered table live := by
  obtain ⟨rows, inside, counted⟩ := covered
  exact ⟨rows, inside, counted.compactIfSparse⟩

/-- Laying the state of a row over a document covers it by the rows that there may be then. -/
theorem isCovered_of_overlayRow (known : schema.table? table.name = some table)
    (sound : table.IsSound) {state : RowState} (covered : document.IsCovered table live)
    (laid : (overlayRow schema table rowKey state).outcome document = (.ok (), later)) :
    later.IsCovered table (state.liveAfter rowKey live) := by
  obtain ⟨rows, inside, counted⟩ := covered
  have left : ∀ other ∈ rows.erase rowKey, live other ∧ other ≠ rowKey := by
    intro other member
    rw [Finset.mem_erase] at member
    exact ⟨inside other member.2, member.1⟩
  cases state with
  | deleted =>
      exact ⟨rows.erase rowKey, left,
        (counted.removeRow laid).mono fun _ => table.keysOfRows_sub_le rows rowKey⟩
  | present fields =>
      obtain ⟨_, middle, removed, put⟩ := outcome_bind_eq_ok_iff.mp laid
      have without := (counted.removeRow removed).mono fun _ =>
        table.keysOfRows_sub_le rows rowKey
      refine ⟨insert rowKey rows, fun other member => ?_, ?_⟩
      · rcases Finset.mem_insert.mp member with rfl | own
        · exact Or.inr rfl
        · exact Or.inl (inside other own)
      · rw [← table.keysOfRows_insert_erase]
        exact without.putRow known sound put
  | overlay patch =>
      obtain ⟨combinations, _, expanded, rest⟩ := outcome_bind_eq_ok_iff.mp laid
      rw [outcome_except, Prod.mk.injEq] at expanded
      obtain ⟨expanded, rfl⟩ := expanded
      exact ⟨rows, inside, forM_invariant (IsCounted table (table.keysOfRows rows))
        (fun components member _ _ held patched =>
          held.patchInstance known sound expanded member patched) counted rest⟩

/-- A document that is built is covered by the stored rows. -/
theorem isCovered_of_isBuilt {setting : Setting} {rows : ByName Fields}
    (known : setting.schema.table? table.name = some table)
    (built : IsBuilt setting rows table.name document) :
    document.IsCovered table fun rowKey => (rows[table.storeKey rowKey]?).isSome := by
  obtain ⟨again, knownAgain, translated⟩ := built
  cases known.symm.trans knownAgain
  obtain ⟨forest, made, rfl⟩ := Except.map_eq_ok_iff.mp translated
  rw [Forest.ofRows_ofTable known] at made
  obtain ⟨nodes, nodesOf, rfl⟩ := Except.map_eq_ok_iff.mp made
  refine ⟨_, fun rowKey member => ?_, nodes, ?_, fun _ => ⟨fun node inside => ?_,
    le_of_eq (TableSchema.keys_of_rowsNodes nodesOf)⟩⟩
  · obtain ⟨⟨own, fields⟩, entry, rfl⟩ := List.mem_map.mp (List.mem_toFinset.mp member)
    have stored := Std.ExtTreeMap.mem_toList_iff_getElem?_eq_some.mp entry
    rw [Store.getElem?_tableRows] at stored
    rw [stored]
    rfl
  · rw [trees_ofForest, Forest.bare_tree]
  · obtain ⟨rowKey, fields, _, combinations, expanded, components, chosen, rfl⟩ :=
      (Forest.mem_rowsNodes_iff nodesOf).mp inside
    exact ⟨rowKey, combinations, components, expanded, chosen,
      TableSchema.isInstanceOf_instanceNode fields components⟩

/-- What a covered document holds in a component of the key stands in the key of a live row. -/
theorem IsCovered.exists_live {other : TableSchema}
    (known : schema.table? table.name = some table)
    (otherKnown : schema.table? other.name = some other) (sound : other.IsSound)
    (covered : document.IsCovered table live) {field value : String}
    (isKey : other.isKey field = true) (held : document.trees.Holds other.name field value) :
    table = other ∧
      (other.JoinsPlainly → ∃ rowKey, live rowKey ∧ other.KeyHolds rowKey field value) := by
  obtain ⟨rows, inside, nodes, same, counted⟩ := covered
  rw [same] at held
  obtain ⟨root, top, container, below, isTable, node, member, own⟩ := held
  cases List.mem_singleton.mp top
  cases List.mem_singleton.mp below
  have named : table.name = other.name := of_decide_eq_true isTable
  cases Schema.eq_of_name_eq known otherKnown named
  refine ⟨rfl, fun joins => ?_⟩
  obtain ⟨instances, less⟩ := counted joins
  obtain ⟨rowKey, combinations, components, expanded, chosen, isInstance⟩ := instances node member
  have keyed : node.key = some (table.instanceKey components) := by
    rw [Node.key, isInstance.label]
    rfl
  have shared := Multiset.mem_of_le less
    (Multiset.mem_coe.mpr (List.mem_filterMap.mpr ⟨node, member, keyed⟩))
  obtain ⟨liveKey, liveRow, shared⟩ := Multiset.mem_sum.mp shared
  obtain ⟨others, otherExpanded, otherComponents, otherChosen, sameKey⟩ :=
    TableSchema.mem_instanceKeys_iff.mp (Multiset.mem_coe.mp shared)
  cases joins.components_eq sound otherExpanded expanded otherChosen chosen sameKey
  exact ⟨liveKey, inside liveKey liveRow, others, otherExpanded, _, otherChosen,
    isInstance.holds field value isKey own⟩

end Document

end ConfigVetting
