import ConfigVetting.Document.Merge
import ConfigVetting.Document.Rows

/-! # What documents say

The nodes of a document carry slots, which say nothing about the rows that it holds. Looking up
tables, list instances and fields depends on the bare trees alone, and so does taking out a list
instance (`ConfigVetting.Document.trees_removeInstance`).
-/

namespace ConfigVetting

namespace Node

variable {σ : Type}

/-- Induction over a node, from its children to the node. -/
theorem inductionOn {motive : Node σ → Prop}
    (combine : ∀ slot label children, (∀ child ∈ children, motive child) →
      motive (mk slot label children)) : ∀ node : Node σ, motive node
  | mk slot label children =>
    combine slot label children fun child _ => inductionOn combine child

@[simp]
theorem bare_mk (slot : σ) (label : Label) (children : Forest σ) :
    (mk slot label children).bare = .tree label children.bare := by
  simp [bare, Forest.bare]

@[simp]
theorem label_bare (node : Node σ) : node.bare.label = node.label := by
  cases node with
  | mk slot label children => rw [bare_mk]; rfl

@[simp]
theorem name_bare (node : Node σ) : node.bare.name = node.name := by
  rw [name, label_bare, name]

@[simp]
theorem kind_bare (node : Node σ) : node.bare.kind = node.kind := by
  rw [kind, label_bare, kind]

@[simp]
theorem key_bare (node : Node σ) : node.bare.key = node.key := by
  rw [key, label_bare, key]

@[simp]
theorem value_bare (node : Node σ) : node.bare.value = node.value := by
  rw [value, label_bare, value]

@[simp]
theorem children_bare (node : Node σ) : node.bare.children = node.children.bare := by
  cases node with
  | mk slot label children => rw [bare_mk]; rfl

@[simp]
theorem bare_withChildren (node : Node σ) (children : Forest σ) :
    (node.withChildren children).bare = node.bare.withChildren children.bare := by
  cases node with
  | mk slot label inner => simp only [withChildren, bare_mk]; rfl

@[simp]
theorem bare_withValue (node : Node σ) (value : Option String) :
    (node.withValue value).bare = node.bare.withValue value := by
  cases node with
  | mk slot label inner => simp only [withValue, bare_mk]; rfl

@[simp]
theorem isTable_bare (table : String) (node : Node σ) :
    node.bare.isTable table = node.isTable table := by
  simp only [isTable, kind_bare, name_bare]

@[simp]
theorem holdsTable_bare (table : String) (node : Node σ) :
    node.bare.holdsTable table = node.holdsTable table := by
  simp [holdsTable, Forest.bare, List.any_map, Function.comp_def]

@[simp]
theorem isInstance_bare (node : Node σ) : node.bare.isInstance = node.isInstance := by
  simp only [isInstance, kind_bare]

@[simp]
theorem hasKey_bare (key : String) (node : Node σ) : node.bare.hasKey key = node.hasKey key := by
  simp only [hasKey, isInstance_bare, key_bare]

theorem leafValues_bare (node : Node σ) (field : String) :
    node.bare.leafValues field = node.leafValues field := by
  simp only [leafValues, children_bare, Forest.bare, List.filterMap_map, Function.comp_def,
    name_bare, kind_bare, value_bare]

/-- The values of a leaf are those of its nodes among the children. -/
theorem mem_leafValues_iff {node : Node σ} {field value : String} :
    value ∈ node.leafValues field ↔ ∃ child ∈ node.children, child.name = field ∧
      (child.kind = .leaf ∨ child.kind = .leafList) ∧ child.value = some value := by
  unfold leafValues
  rw [List.mem_filterMap]
  refine exists_congr fun child => and_congr_right fun _ => ?_
  rw [Option.ite_none_right_eq_some, Bool.and_eq_true, Bool.or_eq_true, decide_eq_true_iff,
    decide_eq_true_iff, decide_eq_true_iff, and_assoc]

/-- A tree is its own bare form. -/
@[simp]
theorem bare_tree (node : Tree) : node.bare = node := by
  induction node using inductionOn with
  | combine slot label children ih =>
      rw [bare_mk, Forest.bare]
      have same : children.map bare = children.map id := List.map_congr_left ih
      rw [same, List.map_id]
      rfl

end Node

namespace Forest

variable {σ : Type}

@[simp]
theorem bare_tree (forest : Forest Unit) : forest.bare = forest := by
  have same : forest.map Node.bare = forest.map id :=
    List.map_congr_left fun node _ => node.bare_tree
  rw [bare, same, List.map_id]

@[simp]
theorem bare_nil : Forest.bare ([] : Forest σ) = [] := rfl

@[simp]
theorem bare_cons (node : Node σ) (forest : Forest σ) :
    Forest.bare (node :: forest) = node.bare :: forest.bare := rfl

@[simp]
theorem bare_append (first second : Forest σ) :
    Forest.bare (first ++ second) = first.bare ++ second.bare :=
  List.map_append

theorem flatMap_children_bare (forest : Forest σ) :
    forest.bare.flatMap Node.children = bare (forest.flatMap Node.children) := by
  simp only [bare, List.flatMap_map, List.map_flatMap, Node.children_bare]

private theorem find?_bare {holds : Tree → Bool} {holdsBefore : Node σ → Bool}
    (same : ∀ node : Node σ, holds node.bare = holdsBefore node) (forest : Forest σ) :
    forest.bare.find? holds = (forest.find? holdsBefore).map Node.bare := by
  rw [bare, List.find?_map]
  have pointwise : holds ∘ Node.bare = holdsBefore := funext same
  rw [pointwise]

private theorem tableContainer?_bare (forest : Forest σ) (table : String) :
    forest.bare.tableContainer? table = (forest.tableContainer? table).map Node.bare := by
  unfold tableContainer? tableModule?
  rw [find?_bare (Node.holdsTable_bare table)]
  cases forest.find? (Node.holdsTable table) with
  | none => rfl
  | some root =>
      simp only [Option.map_some, Option.bind_some, Node.children_bare]
      exact find?_bare (Node.isTable_bare table) root.children

theorem listInstances_bare (forest : Forest σ) (table : String) :
    forest.bare.listInstances table = (forest.listInstances table).bare := by
  unfold listInstances
  rw [tableContainer?_bare]
  cases forest.tableContainer? table with
  | none => rfl
  | some container =>
      simp only [Option.map_some, Node.children_bare, bare, List.filter_map]
      have pointwise : Node.isInstance ∘ Node.bare = Node.isInstance (σ := σ) :=
        funext Node.isInstance_bare
      rw [pointwise]

/-- An instance is found by its key whatever the slots are. -/
theorem findInstance?_bare (forest : Forest σ) (table key : String) :
    forest.bare.findInstance? table key = (forest.findInstance? table key).map Node.bare := by
  unfold findInstance?
  rw [listInstances_bare, find?_bare (Node.hasKey_bare key)]

/-- A value is found whatever the slots are. -/
theorem containsValue_bare (forest : Forest σ) (table field value : String) :
    forest.bare.containsValue table field value = forest.containsValue table field value := by
  unfold containsValue
  rw [listInstances_bare, bare, List.any_map]
  simp only [Function.comp_def, Node.leafValues_bare]

private theorem modifyFirst_bare {choose : Tree → Bool} {chooseBefore : Node σ → Bool}
    {change : Tree → Tree} {changeBefore : Node σ → Node σ}
    (sameChoice : ∀ node : Node σ, choose node.bare = chooseBefore node)
    (sameChange : ∀ node : Node σ, (changeBefore node).bare = change node.bare)
    (forest : Forest σ) :
    (forest.modifyFirst chooseBefore changeBefore).bare = forest.bare.modifyFirst choose change := by
  unfold modifyFirst bare
  rw [List.findIdx_map]
  have pointwise : choose ∘ Node.bare = chooseBefore := funext sameChoice
  rw [pointwise]
  apply List.ext_getElem?
  intro position
  simp only [List.getElem?_map, List.getElem?_modify]
  cases forest[position]? with
  | none => rfl
  | some node =>
      by_cases own : forest.findIdx chooseBefore = position <;> simp [own, sameChange]

/-- An instance is taken out whatever the slots are. -/
theorem withoutInstance_bare (forest : Forest σ) (table key : String) :
    (forest.withoutInstance table key).bare = forest.bare.withoutInstance table key := by
  unfold withoutInstance
  refine modifyFirst_bare (Node.holdsTable_bare table) (fun root => ?_) forest
  rw [Node.bare_withChildren, Node.children_bare]
  refine congrArg _ (modifyFirst_bare (Node.isTable_bare table) (fun container => ?_) root.children)
  rw [Node.bare_withChildren, Node.children_bare]
  have erased : ∀ children : Forest σ, Forest.bare (children.eraseP (Node.hasKey key)) =
      children.bare.eraseP (Node.hasKey key) := by
    intro children
    rw [bare, bare, List.eraseP_map]
    have pointwise : Node.hasKey key ∘ Node.bare = Node.hasKey (σ := σ) key :=
      funext (Node.hasKey_bare key)
    rw [pointwise]
  rw [erased]

end Forest

end ConfigVetting
