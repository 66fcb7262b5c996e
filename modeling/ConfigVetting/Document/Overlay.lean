import ConfigVetting.Document.Merge
import ConfigVetting.Document.Rows
import ConfigVetting.Staging.RowState

/-! # Rows laid over documents

A document that holds a table is brought up to date with one row of it: the list instances of the row
are taken out and, unless the row is gone, put in anew. What was done before a rejection stays done.
-/

namespace ConfigVetting

/-- A change of a document, which may be rejected half-way. -/
abbrev DocumentM := ExceptT Rejection (StateM Document)

namespace Document

/-- Takes out the list instances of a row. -/
def removeRow (table : TableSchema) (rowKey : String) : DocumentM Unit := do
  let combinations ← (table.expandKey rowKey : Except Rejection _)
  combinations.forM fun components =>
    modify fun document => document.removeInstance table.name (table.instanceKey components)

/-- Puts in a row. -/
def putRow (schema : Schema) (table : TableSchema) (rowKey : String) (fields : Fields) :
    DocumentM Unit := do
  let source ← (Forest.ofRows schema (.single table.name rowKey fields) : Except Rejection _)
  modify fun document => document.merge source

/-- Changes the fields of a list instance, if it is there. -/
def patchInstance (schema : Schema) (table : TableSchema) (patch : Patch) (key : String) :
    DocumentM Unit := do
  match (← get).roots.findInstance? table.name key with
  | none => return
  | some node =>
    modify fun document => document.removeInstance table.name key
    putRow schema table key (patch.apply (table.instanceFields node))

/-- Lays the state of a row over a document that holds its table. -/
def overlayRow (schema : Schema) (table : TableSchema) (rowKey : String) :
    RowState → DocumentM Unit
  | .deleted => removeRow table rowKey
  | .present fields => do
    removeRow table rowKey
    putRow schema table rowKey fields
  | .overlay patch => do
    let combinations ← (table.expandKey rowKey : Except Rejection _)
    combinations.forM fun components =>
      patchInstance schema table patch (table.instanceKey components)

/-- The document after a change, if it is not rejected. -/
def changed (document : Document) (change : DocumentM Unit) : Except Rejection Document :=
  match StateT.run (m := Id) (ExceptT.run change) document with
  | (.ok (), document) => .ok document
  | (.error rejection, _) => .error rejection

end Document

end ConfigVetting
