/-! # Nodes of documents

A document is a forest of nodes. Below the module of a table stands the container of the table, below
it one list instance for each row, and below that the leaves of the row; each member of a leaf-list
is a node of its own. A node carries a slot of any type beside its label; a `Tree` carries none, and
two trees are equal when they have the same labels in the same places.
-/

namespace ConfigVetting

/-- What a node stands for. -/
inductive NodeKind where
  | module
  | container
  /-- One row, or one entry of a row, told apart by its key. -/
  | list
  | leaf
  /-- One member of a leaf-list. -/
  | leafList
  deriving DecidableEq, Repr

/-- All of a node but its children. -/
structure Label where
  name : String
  kind : NodeKind
  key : Option String := none
  value : Option String := none
  deriving DecidableEq, Repr

namespace Label

/-- A label with only a name and a kind. -/
def plain (name : String) (kind : NodeKind) : Label :=
  { name, kind }

/-- The label of a list instance. -/
def listInstance (name key : String) : Label :=
  { name, kind := .list, key := some key }

/-- The label of a leaf. -/
def leaf (name value : String) : Label :=
  { name, kind := .leaf, value := some value }

/-- The label of a member of a leaf-list. -/
def member (name value : String) : Label :=
  { name, kind := .leafList, value := some value }

/-- Whether two labels stand for the same node in different documents. Members of leaf-lists are
never told to be the same; list instances are by their keys. -/
def sameNode (first second : Label) : Bool :=
  first.name = second.name &&
    match first.kind, second.kind with
    | .list, .list => first.key = second.key
    | .leafList, _ | _, .leafList => false
    | kind, other => kind = other

/-- Whether a label is one of a leaf-list's members. -/
def isMemberOf (name : String) (label : Label) : Bool :=
  label.kind = .leafList && label.name = name

end Label

/-- A label with children below it, and a slot. -/
inductive Node (σ : Type) where
  | mk (slot : σ) (label : Label) (children : List (Node σ))
  deriving Repr

instance {σ : Type} [Inhabited σ] : Inhabited (Node σ) := ⟨.mk default (.plain "" .module) []⟩

/-- Nodes side by side. -/
abbrev Forest (σ : Type) := List (Node σ)

/-- A node without a slot. -/
abbrev Tree := Node Unit

namespace Node

variable {σ τ α : Type}

/-- The slot of a node. -/
def slot : Node σ → σ
  | mk slot _ _ => slot

/-- The label of a node. -/
def label : Node σ → Label
  | mk _ label _ => label

/-- The children of a node. -/
def children : Node σ → Forest σ
  | mk _ _ children => children

/-- The name of a node. -/
def name (node : Node σ) : String :=
  node.label.name

/-- The kind of a node. -/
def kind (node : Node σ) : NodeKind :=
  node.label.kind

/-- The key of a node, if it is a keyed list instance. -/
def key (node : Node σ) : Option String :=
  node.label.key

/-- The value of a node, if it has one. -/
def value (node : Node σ) : Option String :=
  node.label.value

/-- The node with other children. -/
def withChildren (node : Node σ) (children : Forest σ) : Node σ :=
  mk node.slot node.label children

/-- The node with another value. -/
def withValue (node : Node σ) (value : Option String) : Node σ :=
  mk node.slot { node.label with value } node.children

/-- A tree from a label and its children. -/
def tree (label : Label) (children : Forest Unit) : Tree :=
  mk () label children

mutual

/-- A result for a node from the results for its children. -/
def fold (combine : σ → Label → List α → α) : Node σ → α
  | mk slot label children => combine slot label (foldAll combine children)

/-- The results for all nodes of a forest. -/
def foldAll (combine : σ → Label → List α → α) : Forest σ → List α
  | [] => []
  | node :: rest => fold combine node :: foldAll combine rest

end

/-- The results for a forest are those of its nodes. -/
theorem foldAll_eq_map (combine : σ → Label → List α → α) (forest : Forest σ) :
    foldAll combine forest = forest.map (fold combine) := by
  induction forest with
  | nil => rfl
  | cons node rest ih => simp [foldAll, ih]

/-- A fold combines the results for the children. -/
@[simp]
theorem fold_mk (combine : σ → Label → List α → α) (slot : σ) (label : Label)
    (children : Forest σ) :
    fold combine (mk slot label children) = combine slot label (children.map (fold combine)) := by
  simp [fold, foldAll_eq_map]

/-- How many nodes there are below and with a node. -/
def count : Node σ → Nat :=
  fold fun _ _ counts => counts.foldl Nat.add 0 + 1

/-- The node without its slots. -/
def bare : Node σ → Tree :=
  fold fun _ label children => tree label children

mutual

/-- Whether two nodes are equal. -/
def decEq [DecidableEq σ] : (first second : Node σ) → Decidable (first = second)
  | mk slot label children, mk otherSlot otherLabel otherChildren =>
    if same : slot = otherSlot ∧ label = otherLabel then
      match decEqAll children otherChildren with
      | isTrue eq => isTrue (by rw [same.1, same.2, eq])
      | isFalse ne => isFalse (by simp [ne])
    else isFalse (by simp only [mk.injEq]; exact fun eq => same ⟨eq.1, eq.2.1⟩)

/-- Whether two forests are equal. -/
def decEqAll [DecidableEq σ] : (first second : Forest σ) → Decidable (first = second)
  | [], [] => isTrue rfl
  | [], _ :: _ => isFalse (by simp)
  | _ :: _, [] => isFalse (by simp)
  | node :: rest, other :: others =>
    match decEq node other with
    | isTrue eq =>
      match decEqAll rest others with
      | isTrue restEq => isTrue (by rw [eq, restEq])
      | isFalse ne => isFalse (by simp [ne])
    | isFalse ne => isFalse (by simp [ne])

end

instance [DecidableEq σ] : DecidableEq (Node σ) := decEq

end Node

namespace Forest

variable {σ : Type}

/-- How many nodes a forest has. -/
def count (forest : Forest σ) : Nat :=
  forest.foldl (fun total node => total + node.count) 0

/-- The forest without its slots. -/
def bare (forest : Forest σ) : Forest Unit :=
  forest.map Node.bare

/-- The node at the end of a path of positions. -/
def at? (forest : Forest σ) : List Nat → Option (Node σ)
  | [] => none
  | [position] => forest[position]?
  | position :: rest => forest[position]?.bind fun node => at? node.children rest

/-- The forest with the siblings at the end of a path changed; the path leads to their parent. -/
def modifyBelow (change : Forest σ → Forest σ) : List Nat → Forest σ → Forest σ
  | [], forest => change forest
  | position :: rest, forest =>
    forest.modify position fun node => node.withChildren (modifyBelow change rest node.children)

/-- The nodes below the end of a path, or all at the top for the empty path. -/
def below? (forest : Forest σ) : List Nat → Option (Forest σ)
  | [] => some forest
  | path => (forest.at? path).map Node.children

end Forest

end ConfigVetting
