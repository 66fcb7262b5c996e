import ConfigVetting.Proofs.Document.Copies
import ConfigVetting.Proofs.Document.Counting
import ConfigVetting.Proofs.Document.ReadingBack

/-! # List instances by key

What becomes of the list instances of one key when a row is taken out of a document or put in. Taking
out the row takes away as many of them as the row has of the key
(`ConfigVetting.Document.lists_removeRow`); putting it in where there are none leaves one, which is read
back as the row (`ConfigVetting.Document.lists_putRow`). Two documents of a table are read back to the
same rows exactly if they are key by key (`ConfigVetting.Document.Lists.toRows_eq_iff`).
-/

namespace ConfigVetting

namespace TableSchema

/-- Whether nodes are list instances of a table. -/
def AreInstances (table : TableSchema) (nodes : Forest Unit) : Prop :=
  ∀ node ∈ nodes, ∃ key, node.label = .listInstance table.listName key

end TableSchema

namespace Forest

variable {table : TableSchema} {nodes added : Forest Unit}

/-- The list instances of a key, in order. -/
def ofKey (nodes : Forest Unit) (key : String) : Forest Unit :=
  nodes.filter (Node.hasKey key)

private theorem hasKey_iff {node : Tree} {name own key : String}
    (label : node.label = .listInstance name own) :
    Node.hasKey key node = true ↔ own = key := by
  simp [Node.hasKey, Node.isInstance, Node.kind, Node.key, label, Label.listInstance]

private theorem hasKey_inj {node : Tree} {key other : String} (first : Node.hasKey key node = true)
    (second : Node.hasKey other node = true) : key = other := by
  have keyed := of_decide_eq_true (Bool.and_eq_true_iff.mp first).2
  have otherKeyed := of_decide_eq_true (Bool.and_eq_true_iff.mp second).2
  exact Option.some.inj (keyed.symm.trans otherKeyed)

/-- Taking out the first list instance of a key leaves those of other keys. -/
theorem ofKey_eraseP (nodes : Forest Unit) (key other : String) :
    ofKey (nodes.eraseP (Node.hasKey key)) other =
      if key = other then (nodes.ofKey other).tail else nodes.ofKey other := by
  unfold ofKey
  induction nodes with
  | nil => simp
  | cons node nodes ih =>
      by_cases own : Node.hasKey key node = true
      · rw [List.eraseP_cons_of_pos own]
        by_cases same : key = other
        · rw [if_pos same, List.filter_cons_of_pos (same ▸ own)]
          rfl
        · rw [if_neg same, List.filter_cons_of_neg fun also => same (hasKey_inj own also)]
      · rw [List.eraseP_cons_of_neg own]
        by_cases also : Node.hasKey other node = true
        · have different : key ≠ other := fun same => own (same ▸ also)
          rw [if_neg different] at ih ⊢
          rw [List.filter_cons_of_pos also, List.filter_cons_of_pos also, ih]
        · rw [List.filter_cons_of_neg also, List.filter_cons_of_neg also, ih]

/-- List instances of one key with another one joined to the first, or put in if there is none. -/
def joinFirst (found : Forest Unit) (node : Tree) : Forest Unit :=
  match found with
  | [] => [node]
  | target :: rest => joined target node :: rest

private theorem foldl_joinFirst (target : Tree) (rest nodes : Forest Unit) :
    nodes.foldl joinFirst (target :: rest) = nodes.foldl joined target :: rest := by
  induction nodes generalizing target with
  | nil => rfl
  | cons node nodes ih => exact ih (joined target node)

/-- Among list instances, none has a key whose label none has. -/
theorem ofKey_eq_nil (instances : table.AreInstances nodes) {key : String}
    (absent : nodes.single? (Label.listInstance table.listName key).identity = none) :
    nodes.ofKey key = [] := by
  refine List.filter_eq_nil_iff.mpr fun node member own => ?_
  obtain ⟨nodeKey, label⟩ := instances node member
  cases (hasKey_iff label).mp own
  refine single?_eq_none_iff.mp absent (List.mem_map.mpr ⟨node, mem_singles_iff.mpr ⟨member, ?_⟩, ?_⟩)
  · rw [Node.kind, label]
    exact (Label.isSolid_listInstance _ _).noMember
  · rw [label]

/-- Joining a list instance changes those of its key. -/
theorem ofKey_joinInto (instances : table.AreInstances nodes) {node : Tree} {key : String}
    (label : node.label = .listInstance table.listName key) :
    table.AreInstances (node.joinInto nodes) ∧ ∀ other, (node.joinInto nodes).ofKey other =
      if key = other then joinFirst (nodes.ofKey other) node else nodes.ofKey other := by
  have solid : node.label.IsSolid := by
    rw [label]
    exact Label.isSolid_listInstance _ _
  have own : ∀ other, Node.hasKey other node = decide (key = other) := fun other => by
    rw [Bool.eq_iff_iff, hasKey_iff label, decide_eq_true_iff]
  rcases joinInto_cases nodes solid.noMember with ⟨none, whole⟩ |
    ⟨before, target, after, rfl, _, same, none, whole⟩
  · rw [whole]
    refine ⟨fun one member => ?_, fun other => ?_⟩
    · rcases List.mem_append.mp member with old | new
      · exact instances one old
      · exact ⟨key, List.mem_singleton.mp new ▸ label⟩
    · unfold ofKey
      rw [List.filter_append, List.filter_singleton, own]
      by_cases hit : key = other
      · subst hit
        have empty : nodes.filter (Node.hasKey key) = [] := ofKey_eq_nil instances (label ▸ none)
        rw [if_pos rfl, empty, decide_eq_true rfl]
        rfl
      · rw [if_neg hit, decide_eq_false hit]
        exact List.append_nil _
  · obtain ⟨targetKey, targetLabel⟩ :=
      instances target (List.mem_append_right _ List.mem_cons_self)
    have sameKey : targetKey = key := by
      rw [targetLabel, label] at same
      exact Option.some.inj (congrArg Label.key same)
    subst sameKey
    have joinedLabel : (joined target node).label = .listInstance table.listName targetKey := by
      rw [joined_of_inner target solid.noLeaf, Node.label_withChildren, targetLabel]
    rw [whole]
    refine ⟨fun one member => ?_, fun other => ?_⟩
    · rcases List.mem_append.mp member with front | back
      · exact instances one (List.mem_append_left _ front)
      · rcases List.mem_cons.mp back with rfl | rest
        · exact ⟨targetKey, joinedLabel⟩
        · exact instances one (List.mem_append_right _ (List.mem_cons_of_mem _ rest))
    · unfold ofKey
      rw [List.filter_append, List.filter_append]
      by_cases hit : targetKey = other
      · subst hit
        have empty : before.filter (Node.hasKey targetKey) = [] :=
          ofKey_eq_nil (fun one member => instances one (List.mem_append_left _ member)) (label ▸ none)
        rw [if_pos rfl, empty, List.filter_cons_of_pos ((hasKey_iff joinedLabel).mpr rfl),
          List.filter_cons_of_pos ((hasKey_iff targetLabel).mpr rfl)]
        rfl
      · rw [if_neg hit, List.filter_cons_of_neg fun has => hit ((hasKey_iff joinedLabel).mp has),
          List.filter_cons_of_neg fun has => hit ((hasKey_iff targetLabel).mp has)]

/-- Joining list instances joins those of each key to the first of that key. -/
theorem ofKey_join (instances : table.AreInstances nodes)
    (addedInstances : table.AreInstances added) :
    table.AreInstances (nodes.join added) ∧ ∀ key, (nodes.join added).ofKey key =
      (added.ofKey key).foldl joinFirst (nodes.ofKey key) := by
  have solid : ∀ node ∈ added, node.label.IsSolid := by
    intro node member
    obtain ⟨key, label⟩ := addedInstances node member
    rw [label]
    exact Label.isSolid_listInstance _ _
  rw [join, joinLists_of_solid solid]
  clear solid
  induction added generalizing nodes with
  | nil =>
      rw [joinEach]
      exact ⟨instances, fun _ => rfl⟩
  | cons node added ih =>
      obtain ⟨key, label⟩ := addedInstances node List.mem_cons_self
      obtain ⟨stepInstances, stepped⟩ := ofKey_joinInto instances label
      obtain ⟨joinedInstances, whole⟩ := ih stepInstances fun one member =>
        addedInstances one (List.mem_cons_of_mem _ member)
      rw [joinEach]
      refine ⟨joinedInstances, fun other => ?_⟩
      rw [whole, stepped]
      unfold ofKey
      by_cases hit : key = other
      · rw [if_pos hit, List.filter_cons_of_pos ((hasKey_iff label).mpr hit), List.foldl_cons]
      · rw [if_neg hit, List.filter_cons_of_neg fun has => hit ((hasKey_iff label).mp has)]

end Forest

namespace TableSchema

variable {table : TableSchema} {rowKey key : String} {fields : Fields}
  {combinations : List (List String)}

/-- The list instances of a key among those of a row. -/
def instancesAt (table : TableSchema) (key rowKey : String) (fields : Fields) : Forest Unit :=
  match table.expandKey rowKey with
  | .ok combinations =>
    (combinations.filter fun components => table.instanceKey components = key).map
      (table.instanceNode fields)
  | .error _ => []

private theorem instancesAt_eq (expanded : table.expandKey rowKey = .ok combinations) (key : String)
    (fields : Fields) :
    table.instancesAt key rowKey fields =
      Forest.ofKey (combinations.map (table.instanceNode fields)) key := by
  unfold instancesAt Forest.ofKey
  rw [expanded, List.filter_map]
  refine congrArg _ (List.filter_congr fun components _ => ?_)
  have label : (table.instanceNode fields components).label =
      .listInstance table.listName (table.instanceKey components) := rfl
  rw [Function.comp_apply, Bool.eq_iff_iff, Forest.hasKey_iff label, decide_eq_true_iff]

/-- A row has as many instances under a key as the key is listed. -/
theorem length_instancesAt (table : TableSchema) (key rowKey : String) (fields : Fields) :
    (table.instancesAt key rowKey fields).length = (table.instanceKeys rowKey).count key := by
  unfold instancesAt instanceKeys
  cases table.expandKey rowKey with
  | error rejection => rfl
  | ok combinations =>
      simp only
      rw [List.length_map, List.count_eq_countP, List.countP_map, List.countP_eq_length_filter]
      rfl

/-- A row has no instance under a key that is not listed. -/
theorem instancesAt_eq_nil_iff :
    table.instancesAt key rowKey fields = [] ↔ key ∉ table.instanceKeys rowKey := by
  rw [← List.length_eq_zero_iff, length_instancesAt, List.count_eq_zero]

/-- The nodes of combinations are instances of the table. -/
theorem areInstances_map (table : TableSchema) (fields : Fields) (combinations : List (List String)) :
    table.AreInstances (combinations.map (table.instanceNode fields)) := by
  intro node member
  obtain ⟨components, _, rfl⟩ := List.mem_map.mp member
  exact ⟨_, rfl⟩

/-- The fields that are read back for a key. -/
def readAt (table : TableSchema) (nodes : Forest Unit) (key : String) : Option Fields :=
  ((nodes.ofKey key).map table.instanceFields).getLast?

/-- The list instances of a key among those of a row are all read back as the row. -/
theorem getLast?_instancesAt (inside : key ∈ table.instanceKeys rowKey) :
    ((table.instancesAt key rowKey fields).map table.instanceFields).getLast? =
      some (table.settled fields) := by
  have some : table.instancesAt key rowKey fields ≠ [] := fun none =>
    instancesAt_eq_nil_iff.mp none inside
  unfold instancesAt at some ⊢
  cases expanded : table.expandKey rowKey with
  | error rejection => simp [expanded] at some
  | ok combinations =>
      simp only [expanded, ne_eq, List.map_eq_nil_iff] at some
      simp only [List.map_map, Function.comp_def, instanceFields_instanceNode]
      rw [List.map_const', List.getLast?_replicate, if_neg]
      exact fun none => some (List.eq_nil_of_length_eq_zero none)

/-- Whether the list instances of a row that have one key are read back as the row once they are
joined: there is but one of each key, or entries have their names and values in different leaves. -/
def MergesPlainly (table : TableSchema) (rowKey : String) : Prop :=
  (table.instanceKeys rowKey).Nodup ∨ ∀ leaves ∈ table.mapLeaves, leaves.1 ≠ leaves.2

instance (rowKey : String) : Decidable (table.MergesPlainly rowKey) :=
  inferInstanceAs (Decidable (_ ∨ _))

/-- The list instances of a key among those of a row, joined to one, are read back as the row. -/
theorem foldl_joinFirst_instancesAt (sound : table.IsSound) (plain : table.MergesPlainly rowKey)
    (inside : key ∈ table.instanceKeys rowKey) (fields : Fields) :
    ∃ node, (table.instancesAt key rowKey fields).foldl Forest.joinFirst [] = [node] ∧
      table.instanceFields node = table.settled fields := by
  have count := table.length_instancesAt key rowKey fields
  have filled := List.count_pos_iff.mpr inside
  obtain ⟨combinations, expanded, _⟩ := mem_instanceKeys_iff.mp inside
  have counts : ∀ components ∈ combinations.filter fun components =>
      table.instanceKey components = key, components.length = table.segments.length := by
    intro components member
    obtain ⟨_, _, chosen⟩ := isChosen_of_expandKey sound.named expanded (List.mem_filter.mp member).1
    exact chosen.length_eq
  unfold instancesAt at count ⊢
  simp only [expanded, List.length_map] at count ⊢
  cases copies : combinations.filter fun components => table.instanceKey components = key with
  | nil =>
      rw [copies, List.length_nil] at count
      omega
  | cons components others =>
      rw [copies, List.forall_mem_cons] at counts
      have whole : ((components :: others).map (table.instanceNode fields)).foldl
          Forest.joinFirst [] = [(others.map (table.instanceNode fields)).foldl Forest.joined
            (table.instanceNode fields components)] := Forest.foldl_joinFirst _ _ _
      refine ⟨_, whole, ?_⟩
      rcases plain with once | apart
      · have alone : others = [] := by
          rw [copies, List.length_cons] at count
          have atMost := List.nodup_iff_count_le_one.mp once key
          exact List.eq_nil_of_length_eq_zero (by omega)
        rw [alone]
        exact table.instanceFields_instanceNode fields components
      · exact table.instanceFields_foldl_joined sound apart counts.2 counts.1

/-- The list instances of a key among those of rows come from the rows one after another. -/
theorem ofKey_rowsNodes {rows : KeyedRows} {nodes : Forest Unit}
    (translated : table.rowsNodes rows = .ok nodes) (key : String) :
    table.AreInstances nodes ∧
      nodes.ofKey key = rows.toList.flatMap fun row => table.instancesAt key row.1 row.2 := by
  obtain ⟨each, mapped, rfl⟩ := Except.map_eq_ok_iff.mp translated
  have related := Except.mapM_eq_ok_iff.mp mapped
  clear mapped translated
  generalize rows.toList = entries at related
  induction related with
  | nil => exact ⟨fun _ member => absurd member List.not_mem_nil, rfl⟩
  | cons head _ ih =>
      obtain ⟨combinations, expanded, rfl⟩ := Except.map_eq_ok_iff.mp head
      rw [List.flatten_cons, List.flatMap_cons, ← ih.2, instancesAt_eq expanded]
      refine ⟨fun node member => ?_, List.filter_append ..⟩
      rcases List.mem_append.mp member with own | later
      · exact table.areInstances_map _ _ node own
      · exact ih.1 node later

/-- The list instances of a key are those of the row that has it, if no other row does. -/
theorem ofKey_rowsNodes_of_own {rows : KeyedRows} {nodes : Forest Unit}
    (translated : table.rowsNodes rows = .ok nodes)
    (others : ∀ other : String, rows[other]?.isSome → key ∈ table.instanceKeys other →
      other = rowKey) :
    nodes.ofKey key =
      rows[rowKey]?.toList.flatMap fun fields => table.instancesAt key rowKey fields := by
  have gathered : (rows.toList.flatMap fun row => table.instancesAt key row.1 row.2) =
      rows.toList.flatMap fun row =>
        if row.1 = rowKey then table.instancesAt key row.1 row.2 else [] := by
    refine List.flatMap_congr fun row member => ?_
    by_cases own : row.1 = rowKey
    · rw [if_pos own]
    · rw [if_neg own, instancesAt_eq_nil_iff]
      refine fun also => own (others row.1 ?_ also)
      rw [Std.ExtTreeMap.mem_toList_iff_getElem?_eq_some.mp member]
      rfl
  rw [(ofKey_rowsNodes translated key).2, gathered,
    ByName.flatMap_toList_of_own rows fun row other => if_neg other]
  simp only [↓reduceIte]

/-- What is read back for a key of one of the rows, if it is no key of the others. -/
theorem readAt_rowsNodes {rows : KeyedRows} {nodes : Forest Unit}
    (translated : table.rowsNodes rows = .ok nodes) (inside : key ∈ table.instanceKeys rowKey)
    (others : ∀ other : String, rows[other]?.isSome → key ∈ table.instanceKeys other →
      other = rowKey) :
    table.readAt nodes key = rows[rowKey]?.map table.settled := by
  rw [readAt, ofKey_rowsNodes_of_own translated others]
  cases rows[rowKey]? with
  | none => rfl
  | some fields =>
      rw [Option.toList_some, List.flatMap_singleton, getLast?_instancesAt inside]
      rfl

end TableSchema

namespace Document

open DocumentM

variable {schema : Schema} {table : TableSchema} {document : Document} {nodes : Forest Unit}
  {rowKey : String}

/-- Whether a document holds some list instances of a table and nothing else. -/
structure Lists (table : TableSchema) (nodes : Forest Unit) (document : Document) : Prop where
  trees : document.trees = table.forestOf nodes
  instances : table.AreInstances nodes

theorem Lists.compactIfSparse (lists : document.Lists table nodes) :
    document.compactIfSparse.Lists table nodes :=
  ⟨(trees_compactIfSparse document).trans lists.trees, lists.instances⟩

/-- The instance found under a key is the first one listed under it. -/
theorem Lists.findInstance? (lists : document.Lists table nodes) (key : String) :
    (document.roots.findInstance? table.name key).map Node.bare = (nodes.ofKey key).head? := by
  rw [← findInstance?_trees, lists.trees, Forest.findInstance?_forestOf, Forest.ofKey, List.head?_filter]
  have all : nodes.filter Node.isInstance = nodes := List.filter_eq_self.mpr fun node member => by
    obtain ⟨own, label⟩ := lists.instances node member
    rw [Node.isInstance, Node.kind, label]
    rfl
  rw [all]

/-- Taking a list instance out of a document takes it out of those of its key. -/
theorem Lists.removeInstance (lists : document.Lists table nodes) (key : String) :
    (document.removeInstance table.name key).Lists table (nodes.eraseP (Node.hasKey key)) := by
  refine ⟨?_, fun node member => lists.instances node (List.mem_of_mem_eraseP member)⟩
  have found := lists.findInstance? key
  rw [← findInstance?_trees, Forest.ofKey, List.head?_filter] at found
  rw [trees_removeInstance, found, lists.trees, Forest.withoutInstance_forestOf]
  cases there : nodes.find? (Node.hasKey key) with
  | some node => rfl
  | none =>
      rw [List.eraseP_of_forall_not (List.find?_eq_none.mp there)]
      rfl

/-- Taking out a row takes away as many list instances of each key as the row has of it. -/
theorem lists_removeRow (lists : document.Lists table nodes) {combinations : List (List String)}
    (expanded : table.expandKey rowKey = .ok combinations) :
    ∃ later left, (removeRow table rowKey).outcome document = (.ok (), later) ∧
      later.Lists table left ∧ ∀ key, left.ofKey key =
        (nodes.ofKey key).drop ((table.instanceKeys rowKey).count key) := by
  unfold removeRow
  rw [outcome_except_bind expanded, TableSchema.instanceKeys_eq expanded]
  clear expanded
  induction combinations generalizing document nodes with
  | nil => exact ⟨document, nodes, rfl, lists, fun _ => rfl⟩
  | cons components combinations ih =>
      obtain ⟨later, left, removed, laterLists, dropped⟩ :=
        ih (lists.removeInstance (table.instanceKey components))
      refine ⟨later, left, (outcome_modify_bind _ _ _).trans removed, laterLists, fun key => ?_⟩
      rw [dropped, Forest.ofKey_eraseP, List.map_cons, List.count_cons]
      by_cases own : table.instanceKey components = key
      · rw [if_pos own, if_pos (beq_iff_eq.mpr own), List.drop_tail]
      · rw [if_neg own, if_neg fun same => own (beq_iff_eq.mp same), Nat.add_zero]

/-- Putting in a row joins its list instances of each key to those that are there. -/
theorem lists_putRow (known : schema.table? table.name = some table)
    (lists : document.Lists table nodes) {combinations : List (List String)}
    (expanded : table.expandKey rowKey = .ok combinations) (fields : Fields) :
    ∃ later more, (putRow schema table rowKey fields).outcome document = (.ok (), later) ∧
      later.Lists table more ∧ ∀ key, more.ofKey key =
        (table.instancesAt key rowKey fields).foldl Forest.joinFirst (nodes.ofKey key) := by
  have translated := Forest.ofRows_single known rowKey fields
  rw [TableSchema.rowNodes, expanded] at translated
  obtain ⟨instances, whole⟩ :=
    Forest.ofKey_join lists.instances (table.areInstances_map fields combinations)
  refine ⟨_, _, (outcome_except_bind translated _ _).trans rfl,
    ⟨?_, instances⟩, fun key => ?_⟩
  · rw [trees_merge, lists.trees, Forest.bare_tree, Forest.join_forestOf]
  · rw [whole, TableSchema.instancesAt_eq expanded]

/-- A document of list instances is read back to the rows of these. -/
theorem Lists.toRows_eq (known : schema.table? table.name = some table)
    (lists : document.Lists table nodes) :
    document.toRows schema = .ok ((∅ : TableRows).insert table.name (table.readRows nodes ∅)) := by
  have keyed : ∀ node ∈ nodes, node.key.isSome := by
    intro node member
    obtain ⟨key, label⟩ := lists.instances node member
    rw [Node.key, label]
    rfl
  rw [toRows, ← Forest.toRows_bare, show document.roots.bare = _ from lists.trees, Forest.toRows_eq]
  have containers : (table.forestOf nodes).flatMap Node.children =
      [.tree (.plain table.name .container) nodes] := rfl
  rw [containers, List.foldlM_cons]
  have added : Forest.addRows schema (∅ : TableRows)
      (Node.tree (.plain table.name .container) nodes) =
        .ok ((∅ : TableRows).insert table.name (table.readRows nodes ∅)) := by
    have name : (Node.tree (.plain table.name .container) nodes).name = table.name := rfl
    have read : Forest.containerRows table (Node.tree (.plain table.name .container) nodes) ∅ =
        .ok (table.readRows nodes ∅) := Forest.containerRows_eq (show ∀ node ∈ Node.children
          (Node.tree (.plain table.name .container) nodes), node.key.isSome from keyed) ∅
    unfold Forest.addRows
    rw [name, known]
    simp only [TableRows.keyed, Std.ExtTreeMap.getElem?_empty, Option.getD_none, read]
    rfl
  rw [added]
  rfl

private theorem Lists.getElem?_readRows (lists : document.Lists table nodes) (key : String) :
    (table.readRows nodes ∅)[key]? = table.readAt nodes key := by
  have own : (nodes.filter fun node => node.key.getD "" = key) = nodes.ofKey key := by
    refine List.filter_congr fun node member => ?_
    obtain ⟨ownKey, label⟩ := lists.instances node member
    rw [Bool.eq_iff_iff, Forest.hasKey_iff label, decide_eq_true_iff, Node.key, label]
    rfl
  rw [TableSchema.getElem?_readRows, own, TableSchema.readAt]
  exact Option.or_none

/-- Documents of list instances are read back to the same rows exactly if they are for each key. -/
theorem Lists.toRows_eq_iff (known : schema.table? table.name = some table)
    (lists : document.Lists table nodes) {other : Document} {others : Forest Unit}
    (otherLists : other.Lists table others) :
    document.toRows schema = other.toRows schema ↔
      ∀ key, table.readAt nodes key = table.readAt others key := by
  rw [lists.toRows_eq known, otherLists.toRows_eq known]
  constructor
  · intro same key
    have rows := congrArg (fun rows : TableRows => rows[table.name]?) (Except.ok.inj same)
    simp only [Std.ExtTreeMap.getElem?_insert_self, Option.some.injEq] at rows
    rw [← lists.getElem?_readRows, ← otherLists.getElem?_readRows, rows]
  · intro each
    have rows : table.readRows nodes ∅ = table.readRows others ∅ :=
      Std.ExtTreeMap.ext_getElem? fun key => by
        rw [lists.getElem?_readRows, otherLists.getElem?_readRows, each]
    rw [rows]

/-- The document of rows of a table holds their list instances. -/
theorem exists_lists_of_ofRows (known : schema.table? table.name = some table) {rows : KeyedRows}
    (made : ofRows schema ((∅ : TableRows).insert table.name rows) = .ok document) :
    ∃ nodes, table.rowsNodes rows = .ok nodes ∧ document.Lists table nodes := by
  obtain ⟨forest, translated, rfl⟩ := Except.map_eq_ok_iff.mp made
  rw [Forest.ofRows_ofTable known] at translated
  obtain ⟨nodes, nodesOf, rfl⟩ := Except.map_eq_ok_iff.mp translated
  refine ⟨nodes, nodesOf, ?_, (TableSchema.ofKey_rowsNodes nodesOf "").1⟩
  rw [trees_ofForest, Forest.bare_tree]

end Document

end ConfigVetting
