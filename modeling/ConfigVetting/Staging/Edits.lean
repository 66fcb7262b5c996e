import ConfigVetting.Staging.RowState

/-! # Staged edits

The edits that a session has accepted, by table and row key in the order they came. Later edits see
the rows as these leave them, for the store has not changed yet.
-/

namespace ConfigVetting

/-- An operation on a row that is known, with the fields it comes with. -/
structure StagedEdit where
  operation : Operation
  fields : Fields

/-- Staged edits by table and row key, first to last. -/
structure StagedEdits where
  tables : ByName (ByName (List StagedEdit)) := ∅

namespace StagedEdits

/-- No edits. -/
def empty : StagedEdits := {}

/-- The staged edits with one more. -/
def record (staged : StagedEdits) (table rowKey : String) (operation : Operation)
    (fields : Fields) : StagedEdits :=
  ⟨staged.tables.alter table fun rows =>
    some ((rows.getD ∅).alter rowKey fun edits =>
      some (edits.getD [] ++ [⟨operation, fields⟩]))⟩

/-- The edits of one row. -/
def edits (staged : StagedEdits) (table rowKey : String) : List StagedEdit :=
  ((staged.tables[table]?.getD ∅)[rowKey]?).getD []

/-- The net effect of some edits, unless there are none. -/
def netState : List StagedEdit → Option RowState
  | [] => none
  | edit :: rest => some (rest.foldl (fun state next =>
      state.andThen (.ofEdit next.operation next.fields)) (.ofEdit edit.operation edit.fields))

/-- The net effect on one row, unless it was never touched. -/
def state? (staged : StagedEdits) (table rowKey : String) : Option RowState :=
  netState (staged.edits table rowKey)

/-- The net effects on the touched rows of a table, by row key. -/
def rows (staged : StagedEdits) (table : String) : List (String × RowState) :=
  (staged.tables[table]?.getD ∅).toList.filterMap fun (rowKey, edits) =>
    (netState edits).map fun state => (rowKey, state)

/-- Whether a row is there, as far as the edits tell. -/
def isThere? (staged : StagedEdits) (table rowKey : String) : Option Bool :=
  (staged.state? table rowKey).map RowState.isThere

/-- How many rows of a table were created and are still there. -/
def createdCount (staged : StagedEdits) (table : String) : Nat :=
  (staged.rows table).countP fun (_, state) => state.isPresent

/-- How many edits there are. -/
def count (staged : StagedEdits) : Nat :=
  staged.tables.values.foldl (fun total rows =>
    rows.values.foldl (fun total edits => total + edits.length) total) 0

/-- Whether there are no edits. -/
def isEmpty (staged : StagedEdits) : Bool :=
  staged.tables.isEmpty

end StagedEdits

end ConfigVetting
