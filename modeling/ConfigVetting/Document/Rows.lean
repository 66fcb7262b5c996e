import ConfigVetting.Document.Basic
import ConfigVetting.RowKey
import ConfigVetting.Schema.Index

/-! # Rows as documents

Rows of flat tables become a forest of the shape that the schema gives them, and the list instances
of a document are read back as rows. The placeholder field of a row without fields is no leaf; it
comes back for an instance without any leaves but its key.
-/

namespace ConfigVetting

namespace TableSchema

/-- The leaves of a field, or the entry that it is in a table of entries. -/
def fieldNodes (table : TableSchema) (name value : String) : Forest Unit :=
  if name = placeholder then []
  else
    match table.mapLeaves with
    | some (nameLeaf, valueLeaf) =>
      [.tree (.listInstance table.name name)
        [.tree (.leaf nameLeaf name) [], .tree (.leaf valueLeaf (referenced value)) []]]
    | none =>
      let listed := Text.beforeLast listMark name
      let base := listed.getD name
      if table.isKey base then []
      else if listed.isSome || table.isLeafList name then
        (listMembers value).map fun member => .tree (.member base (referenced member)) []
      else [.tree (.leaf base (referenced value)) []]

/-- The list instance of a row with some key components. -/
def instanceNode (table : TableSchema) (fields : Fields) (components : List String) : Tree :=
  .tree (.listInstance table.listName (table.instanceKey components))
    (((table.keyNames.zip components).map fun (name, value) => .tree (.leaf name value) []) ++
      fields.toList.flatMap fun (name, value) => table.fieldNodes name value)

/-- The list instances that a row becomes. -/
def rowNodes (table : TableSchema) (rowKey : String) (fields : Fields) :
    Except Rejection (Forest Unit) :=
  (table.expandKey rowKey).map fun combinations => combinations.map (table.instanceNode fields)

/-- The list instances that the rows of a table become. -/
def rowsNodes (table : TableSchema) (rows : KeyedRows) : Except Rejection (Forest Unit) :=
  (rows.toList.mapM fun (rowKey, fields) => table.rowNodes rowKey fields).map List.flatten

/-- The non-key fields of a list instance. -/
def instanceFields {σ : Type} (table : TableSchema) (node : Node σ) : Fields :=
  let plain : Fields := node.children.foldl (fun fields child =>
    match child.kind with
    | .leaf =>
      if table.isKey child.name then fields else fields.insert child.name (child.value.getD "")
    | .list =>
      match table.mapLeaves with
      | some (nameLeaf, valueLeaf) =>
        match child.leafValues nameLeaf, child.leafValues valueLeaf with
        | name :: _, value :: _ => fields.insert name value
        | _, _ => fields
      | none => fields
    | _ => fields) ∅
  let members : ByName (List String) := node.children.foldl (fun members child =>
    if child.kind = .leafList then
      members.alter child.name fun values => some (values.getD [] ++ [child.value.getD ""])
    else members) ∅
  let fields := members.toList.foldl (fun fields (name, values) =>
    fields.insert (listSpelling name) (Text.joinWith "," values)) plain
  if fields.isEmpty then fields.insert placeholder placeholder else fields

end TableSchema

/-- The table of a name, or the rejection of the name. -/
def Schema.knownTable (schema : Schema) (name : String) : Except Rejection TableSchema :=
  match schema.table? name with
  | some table => .ok table
  | none => .error ((Rejection.ofMessage .invalidKey s!"Unknown table '{name}'").onRow name [])

namespace Forest

/-- The forest with the container of a table added to the module it belongs to. -/
def addTable (forest : Forest Unit) (table : TableSchema) (instances : Forest Unit) :
    Forest Unit :=
  let container := Node.tree (.plain table.name .container) instances
  let isModule (node : Tree) := node.name = table.moduleName && node.kind = .module
  if forest.any isModule then
    forest.modifyFirst isModule fun root => root.withChildren (root.children ++ [container])
  else forest ++ [.tree (.plain table.moduleName .module) [container]]

/-- The forest of rows of any tables, or the first rejection. -/
def ofRows (schema : Schema) (rows : TableRows) : Except Rejection (Forest Unit) :=
  rows.toList.foldlM (fun forest (name, keyed) => do
    let table ← schema.knownTable name
    return forest.addTable table (← table.rowsNodes keyed)) []

variable {σ : Type}

/-- The rows of a table with those of its list instances added. -/
def containerRows (table : TableSchema) (container : Node σ) (rows : KeyedRows) :
    Except Rejection KeyedRows :=
  container.children.foldlM (fun rows node =>
    match node.key with
    | some key => .ok (rows.insert key (table.instanceFields node))
    | none => .error (.internal s!"List instance of '{table.name}' has no key")) rows

/-- The rows that the list instances of a forest hold. -/
def toRows (schema : Schema) (forest : Forest σ) : Except Rejection TableRows :=
  (forest.flatMap Node.children).foldlM (fun rows container =>
    match schema.table? container.name with
    | none => .error (.internal s!"Document holds unknown table '{container.name}'")
    | some table => do
      let keyed ← containerRows table container (rows.keyed table.name)
      return rows.insert table.name keyed) ∅

end Forest

namespace Document

/-- The document of rows of any tables. -/
def ofRows (schema : Schema) (rows : TableRows) : Except Rejection Document :=
  (Forest.ofRows schema rows).map ofForest

/-- The document of one row. -/
def ofRow (schema : Schema) (table rowKey : String) (fields : Fields) :
    Except Rejection Document :=
  ofRows schema (.single table rowKey fields)

/-- The rows that the list instances of a document hold. -/
def toRows (document : Document) (schema : Schema) : Except Rejection TableRows :=
  document.roots.toRows schema

end Document

end ConfigVetting
