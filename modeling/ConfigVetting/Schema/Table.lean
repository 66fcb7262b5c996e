import ConfigVetting.Pattern.Basic
import ConfigVetting.Rows
import ConfigVetting.Schema.Declaration
import ConfigVetting.Schema.Fault
import ConfigVetting.Schema.KeyPattern
import ConfigVetting.Schema.Leafref

/-! # Tables of a schema

A table as checks use it: the shape of its row keys, its leaves with their leafrefs and patterns
read, and the must rules of its nodes. `TableSchema.ofDecl` makes it from a declaration or tells
the first fault of the declaration.
-/

namespace ConfigVetting

/-- A leaf with its leafrefs and its pattern read. -/
structure LeafSchema where
  decl : LeafDecl
  targets : List LeafrefTarget
  pattern : Option Pattern

/-- A table with all of its declaration read. -/
structure TableSchema where
  name : String
  moduleName : String
  keyPattern : String
  keyDelimiter : String
  /-- The components of the row keys. -/
  segments : List KeySegment
  /-- The leaf that names an entry and the leaf that holds its value, in a table of entries. -/
  mapLeaves : Option (String × String)
  leaves : ByName LeafSchema
  /-- The last rule of each node. -/
  must : ByName MustRule
  /-- The other tables that the must rules name. -/
  dependentTables : Names
  maxElements : Option Nat

namespace LeafSchema

/-- A leaf of a table, or what is wrong with its declaration. -/
def ofDecl [PatternReader] (table : String) (decl : LeafDecl) : Except SchemaFault.Cause LeafSchema := do
  if (Text.beforeLast listMark decl.name).isSome then
    throw (.invalidLeaf table s!"field '{decl.name}' must be declared without the '@' suffix")
  let targets ← decl.leafrefs.mapM fun path =>
    match LeafrefTarget.parse? path with
    | some target => .ok target
    | none => .error (.invalidLeafref table decl.name path)
  match decl.pattern with
  | none => return { decl, targets, pattern := none }
  | some text =>
    match Pattern.parse? text with
    | some pattern => return { decl, targets, pattern := some pattern }
    | none =>
      throw (.invalidLeaf table
        s!"field '{decl.name}' has an invalid pattern: it does not read as one")

/-- Leaves by name, or the first fault among their declarations. -/
def byName [PatternReader] (table : String) (decls : List LeafDecl) :
    Except SchemaFault.Cause (ByName LeafSchema) :=
  decls.foldlM (fun leaves decl => do
    let leaf ← ofDecl table decl
    if decl.name ∈ leaves then
      throw (.invalidLeaf table s!"field '{decl.name}' declared twice")
    return leaves.insert decl.name leaf) ∅

end LeafSchema

namespace TableSchema

/-- The two leaves of a table of entries, if it is one. -/
def mapLeavesOf (table : String) :
    Option (List String) → Except SchemaFault.Cause (Option (String × String))
  | none => .ok none
  | some [nameLeaf, valueLeaf] => .ok (some (nameLeaf, valueLeaf))
  | some names =>
    .error (.invalidLeaf table s!"map_leaf needs exactly two leaves, got {names.length}")

/-- A table of a module, or the first fault of its declaration. A delimiter that the table does not
declare is the given one. The tables that its must rules name are not known yet. -/
def ofDecl [PatternReader] (moduleName delimiter : String) (decl : TableDecl) :
    Except SchemaFault.Cause TableSchema := do
  let keyDelimiter := decl.keyDelimiter.getD delimiter
  let segments ← (KeyPattern.parse decl.name decl.keyPattern keyDelimiter).mapError fun fault =>
    .invalidKeyPattern decl.name fault.message
  let mapLeaves ← mapLeavesOf decl.name decl.mapLeaves
  let leaves ← LeafSchema.byName decl.name decl.leaves
  return {
    name := decl.name
    moduleName, keyDelimiter, segments, mapLeaves, leaves
    keyPattern := decl.keyPattern
    must := decl.must.foldl (fun rules rule => rules.insert rule.node rule) ∅
    dependentTables := ∅
    maxElements := decl.maxElements }

/-- The name of the list that holds the rows. -/
def listName (table : TableSchema) : String :=
  table.name ++ "_LIST"

/-- The names of the key components, in order. -/
def keyNames (table : TableSchema) : List String :=
  table.segments.map KeySegment.name

/-- Whether a field is a component of the key. -/
def isKey (table : TableSchema) (field : String) : Bool :=
  table.keyNames.contains field

/-- The leaf of a name. -/
def leaf? (table : TableSchema) (name : String) : Option LeafSchema :=
  table.leaves[name]?

/-- Whether a field is declared to hold several values. -/
def isLeafList (table : TableSchema) (field : String) : Bool :=
  match table.leaf? field with
  | some leaf => leaf.decl.isList
  | none => false

/-- The names of all leaves that a row can have. -/
def leafNames (table : TableSchema) : Names :=
  let entryLeaves :=
    match table.mapLeaves with
    | some (nameLeaf, valueLeaf) => [nameLeaf, valueLeaf]
    | none => []
  (table.keyNames ++ table.leaves.keys ++ entryLeaves).foldl (fun names name => names.insert name) ∅

/-- The components of a row key, all non-empty; the last keeps any surplus delimiters. -/
def splitKey (table : TableSchema) (rowKey : String) : Option (List String) :=
  let parts := Text.splitAtMost table.segments.length table.keyDelimiter rowKey
  if parts.length = table.segments.length && parts.all fun part => !part.isEmpty then some parts
  else none

/-- How every store key of the table starts. -/
def storeStart (table : TableSchema) : String :=
  table.name ++ table.keyDelimiter

/-- The store key of a row. -/
def storeKey (table : TableSchema) (rowKey : String) : String :=
  table.storeStart ++ rowKey

/-- The row key in a store key of the table. -/
def rowKey? (table : TableSchema) (storeKey : String) : Option String :=
  Text.afterStart table.storeStart storeKey

end TableSchema

end ConfigVetting
