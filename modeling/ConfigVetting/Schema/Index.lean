import ConfigVetting.Schema.Table
import ConfigVetting.Text.Cut

/-! # Schemas

All tables of a schema by name. A schema is built from declarations once; then it answers which
table owns a store key, which leaves refer to a leaf, and which tables the checks of a table need.
-/

namespace ConfigVetting

/-- The tables of a schema by name. -/
structure Schema where
  tables : ByName TableSchema

namespace Schema

/-- The delimiter of keys where none is declared. -/
def usualDelimiter : String := "|"

/-- The tables of some modules, those in `tables` read before, or the first fault. -/
def readTables [PatternReader] (delimiter : String) (modules : List ModuleDecl) :
    Except SchemaFault.Cause (ByName TableSchema) :=
  modules.foldlM (fun tables decl =>
    decl.tables.foldlM (fun tables tableDecl => do
      let table ← TableSchema.ofDecl decl.name delimiter tableDecl
      if table.name ∈ tables then throw (.duplicateTable table.name)
      return tables.insert table.name table) tables) ∅

/-- The other tables that the must rules of a table name as whole words. -/
def namedTables (names : List String) (table : TableSchema) : Names :=
  names.foldl (fun found name =>
    if name ≠ table.name && table.must.values.any fun rule => Text.hasWord name rule.expression then
      found.insert name
    else found) ∅

/-- The schema of some modules, or the first fault in it. -/
def build [PatternReader] (modules : List ModuleDecl) (delimiter : String) :
    Except SchemaFault Schema := do
  let tables ← (readTables delimiter modules).mapError SchemaFault.ofCause
  return ⟨tables.map fun _ table =>
    { table with dependentTables := namedTables tables.keys table }⟩

/-- The table of a name. -/
def table? (schema : Schema) (name : String) : Option TableSchema :=
  schema.tables[name]?

/-- Whether one of two tables has the longer name. -/
def longerName (first second : TableSchema × String) : TableSchema × String :=
  if first.1.name.utf8ByteSize ≤ second.1.name.utf8ByteSize then second else first

/-- The table that owns a store key, and the row key in it: of the tables whose name and delimiter
the key starts with, the one with the longest name. -/
def splitStoreKey (schema : Schema) (key : String) : Option (TableSchema × String) :=
  schema.tables.values.foldl (fun found table =>
    match table.rowKey? key with
    | none => found
    | some rowKey =>
      match found with
      | none => some (table, rowKey)
      | some earlier => some (longerName earlier (table, rowKey))) none

/-- The leaves that refer to a leaf, each with its table, in the order of their names. -/
def referrers (schema : Schema) (table leaf : String) : List (String × String) :=
  schema.tables.values.flatMap fun referring =>
    referring.leaves.toList.filterMap fun (name, leafSchema) =>
      if leafSchema.targets.contains ⟨table, leaf⟩ then some (referring.name, name) else none

/-- The leaves of a table that any leaf refers to. -/
def referencedLeaves (schema : Schema) (table : String) : Names :=
  (schema.tables.values.flatMap fun referring =>
    referring.leaves.values.flatMap fun leaf => leaf.targets).foldl
      (fun names target => if target.table = table then names.insert target.leaf else names) ∅

/-- The other tables whose data the checks of a table need. -/
def requiredTables (schema : Schema) (name : String) : Names :=
  match schema.table? name with
  | none => ∅
  | some table =>
    ((table.leaves.values.flatMap fun leaf => leaf.targets).foldl
      (fun names target => names.insert target.table) table.dependentTables).erase name

end Schema

end ConfigVetting
