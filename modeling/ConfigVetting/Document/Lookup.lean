import ConfigVetting.Document.Node

/-! # Looking up tables in documents

Finding the container of a table, its list instances and their values. Of several nodes that would
do, the first counts.
-/

namespace ConfigVetting

namespace Node

variable {σ : Type}

/-- Whether a node is the container of a table. -/
def isTable (table : String) (node : Node σ) : Bool :=
  node.kind = .container && node.name = table

/-- Whether the container of a table stands below a node. -/
def holdsTable (table : String) (node : Node σ) : Bool :=
  node.children.any (isTable table)

/-- Whether a node is a list instance. -/
def isInstance (node : Node σ) : Bool :=
  node.kind = .list

/-- Whether a node is the list instance of a key. -/
def hasKey (key : String) (node : Node σ) : Bool :=
  node.isInstance && node.key = some key

/-- The values of a leaf or leaf-list directly below a node. -/
def leafValues (node : Node σ) (field : String) : List String :=
  node.children.filterMap fun child =>
    if child.name = field && (child.kind = .leaf || child.kind = .leafList) then child.value
    else none

end Node

namespace Forest

variable {σ : Type}

/-- The module that a table stands in. -/
def tableModule? (forest : Forest σ) (table : String) : Option (Node σ) :=
  forest.find? (Node.holdsTable table)

/-- The container of a table. -/
def tableContainer? (forest : Forest σ) (table : String) : Option (Node σ) :=
  (forest.tableModule? table).bind fun root => root.children.find? (Node.isTable table)

/-- The list instances of a table. -/
def listInstances (forest : Forest σ) (table : String) : Forest σ :=
  match forest.tableContainer? table with
  | some container => container.children.filter Node.isInstance
  | none => []

/-- The list instance of a table with a key. -/
def findInstance? (forest : Forest σ) (table key : String) : Option (Node σ) :=
  (forest.listInstances table).find? (Node.hasKey key)

/-- Whether any list instance of a table has a value in a leaf. -/
def containsValue (forest : Forest σ) (table field value : String) : Bool :=
  (forest.listInstances table).any fun node => (node.leafValues field).contains value

/-- The forest with the first node of a class changed. -/
def modifyFirst (choose : Node σ → Bool) (change : Node σ → Node σ) (forest : Forest σ) :
    Forest σ :=
  forest.modify (forest.findIdx choose) change

/-- The forest without the first list instance of a table with a key. -/
def withoutInstance (forest : Forest σ) (table key : String) : Forest σ :=
  forest.modifyFirst (Node.holdsTable table) fun root =>
    root.withChildren (root.children.modifyFirst (Node.isTable table) fun container =>
      container.withChildren (container.children.eraseP (Node.hasKey key)))

end Forest

end ConfigVetting
