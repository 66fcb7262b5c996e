import ConfigVetting.RowKey
import ConfigVetting.Staging.Edits
import ConfigVetting.Store.Fetch
import ConfigVetting.World

/-! # Delete integrity

A row may not be deleted while another row refers to one of its values by a leafref. Rows are taken
as the session sees them: the staged rows are looked at first, then those in the store.
-/

namespace ConfigVetting.DeleteIntegrity

/-- The values of a field in a row, lists taken apart and references followed. -/
def fieldValues (table : TableSchema) (fields : Fields) (field : String) : List String :=
  let plain :=
    match fields[field]? with
    | none => []
    | some value =>
      if table.isLeafList field then (listMembers value).map referenced
      else if value.isEmpty then [] else [referenced value]
  let listed :=
    match fields[listSpelling field]? with
    | none => []
    | some value => (listMembers value).map referenced
  plain ++ listed

/-- Where a field stands among the key components of a table. -/
def keyPosition? (table : TableSchema) (field : String) : Option Nat :=
  table.keyNames.findIdx? fun name => name = field

/-- The values that a row key holds in a component. -/
def keyValues (table : TableSchema) (position : Nat) (rowKey : String) : List String :=
  match (table.splitKey rowKey).bind fun components => components[position]? with
  | some component => listMembers component
  | none => []

/-- The values of a leaf in a row. -/
def rowValues (table : TableSchema) (field rowKey : String) (fields : Fields) : List String :=
  match keyPosition? table field with
  | some position => keyValues table position rowKey
  | none => fieldValues table fields field

/-- Whether two lists of values have one in common. -/
def meet (values wanted : List String) : Bool :=
  values.any wanted.contains

/-- The fields that the store holds for a row; none for an absent one. -/
def storedFields (table : TableSchema) (rowKey : String) : WorldM Fields := do
  let rows ← World.askStore (Store.getRows [table.storeKey rowKey])
  return rows.head?.join.getD ∅

/-- The fields of a row as the session sees them. -/
def currentFields (staged : StagedEdits) (table : TableSchema) (rowKey : String) :
    WorldM Fields := do
  match staged.state? table.name rowKey with
  | some (.present fields) => return fields
  | some .deleted => return ∅
  | some (.overlay patch) => return patch.apply (← storedFields table rowKey)
  | none => storedFields table rowKey

/-- Whether the staged edits of a row tell all about it. -/
def isDecided (staged : StagedEdits) (table rowKey : String) : Bool :=
  match staged.state? table rowKey with
  | some (.present _) | some .deleted => true
  | _ => false

/-- The first row that the session created with one of some values in a leaf. -/
def stagedReferrer? (staged : StagedEdits) (table : TableSchema) (field : String)
    (values : List String) : Option String :=
  ((staged.rows table.name).find? fun (rowKey, state) =>
    match state with
    | .present fields => meet (rowValues table field rowKey fields) values
    | _ => false).map Prod.fst

/-- Fields as the staged edits of their row change them. -/
def patched (staged : StagedEdits) (table rowKey : String) (fields : Fields) : Fields :=
  match staged.state? table rowKey with
  | some (.overlay patch) => patch.apply fields
  | _ => fields

/-- The first stored row with one of some values in a leaf, staged edits considered. -/
def storedReferrer? (setting : Setting) (staged : StagedEdits) (table : TableSchema)
    (field : String) (values : List String) : WorldM (Option String) := do
  let keys ← World.askStore (Store.keys table.storeStart)
  let candidates := (keys.filterMap table.rowKey?).filter fun rowKey =>
    !isDecided staged table.name rowKey
  match keyPosition? table field with
  | some position =>
    return candidates.find? fun rowKey => meet (keyValues table position rowKey) values
  | none =>
    let rows ← World.askStore (Store.fetch (candidates.map table.storeKey) setting.batchSize)
    return ((candidates.zip rows).find? fun (rowKey, fields) =>
      match fields with
      | none => false
      | some fields =>
        meet (fieldValues table (patched staged table.name rowKey fields) field) values).map
      Prod.fst

/-- The first row with one of some values in a leaf. -/
def referrer? (setting : Setting) (staged : StagedEdits) (table : TableSchema) (field : String)
    (values : List String) : WorldM (Option String) :=
  match stagedReferrer? staged table field values with
  | some rowKey => return some rowKey
  | none => storedReferrer? setting staged table field values

/-- The row that is to be deleted. -/
structure Target where
  table : TableSchema
  rowKey : String
  keyComponents : List String

/-- Checks that no row refers to some values of a leaf of the row. -/
def checkValues (setting : Setting) (staged : StagedEdits) (target : Target) (field : String)
    (values : List String) : WorldM Unit :=
  (setting.schema.referrers target.table.name field).forM fun (name, referring) => do
    match setting.schema.table? name with
    | none => return
    | some table =>
      match ← referrer? setting staged table referring values with
      | none => return
      | some rowKey =>
        throw (((Rejection.ofMessage .leafrefIntegrity
          s!"Entry is still referenced by '{table.storeKey rowKey}' field '{referring}'").onRow
            target.table.name target.keyComponents).onField field (Text.joinWith "," values))

/-- The values of a leaf of the row, and its fields if they were read so far. -/
def targetValues (staged : StagedEdits) (target : Target) (known : Option Fields)
    (field : String) : WorldM (List String × Option Fields) := do
  match keyPosition? target.table field with
  | some position =>
    return ((target.keyComponents[position]?.map listMembers).getD [], known)
  | none =>
    let fields ← match known with
      | some fields => pure fields
      | none => currentFields staged target.table target.rowKey
    return (fieldValues target.table fields field, some fields)

/-- Checks that no row refers to a row that is to be deleted. -/
def check (setting : Setting) (staged : StagedEdits) (target : Target) : WorldM Unit :=
  discard ((setting.schema.referencedLeaves target.table.name).toList.foldlM
    (fun known field => do
      let (values, known) ← targetValues staged target known field
      if !values.isEmpty then checkValues setting staged target field values
      return known) (none : Option Fields))

end ConfigVetting.DeleteIntegrity
