import ConfigVetting.Document.Overlay
import ConfigVetting.Proofs.Confined
import ConfigVetting.Proofs.Schema.RowKeys

/-! # Changes of documents that go through

A change of a document may be rejected half-way, but only where a key does not stand for list
instances. Laying the state of a row over a document goes through for a row whose key does; where the
row is patched, the keys of its list instances must as well
(`ConfigVetting.Document.goesThrough_overlayRow`).
-/

namespace ConfigVetting

namespace DocumentM

variable {α β : Type}

/-- The outcome of a change, and the document after it. -/
def outcome (change : DocumentM α) (document : Document) : Except Rejection α × Document :=
  StateT.run (m := Id) (ExceptT.run change) document

/-- Whether a change is not rejected for any document. -/
def GoesThrough (change : DocumentM Unit) : Prop :=
  ∀ document : Document, (change.outcome document).1 = .ok ()

@[simp]
theorem outcome_pure (answer : α) (document : Document) :
    (pure answer : DocumentM α).outcome document = (.ok answer, document) := rfl

@[simp]
theorem outcome_get (document : Document) :
    (get : DocumentM Document).outcome document = (.ok document, document) := rfl

@[simp]
theorem outcome_modify (change : Document → Document) (document : Document) :
    (modify change : DocumentM Unit).outcome document = (.ok (), change document) := rfl

/-- A step outside of the document leaves the document. -/
@[simp]
theorem outcome_except (step : Except Rejection α) (document : Document) :
    (liftM step : DocumentM α).outcome document = (step, document) := by
  cases step <;> rfl

/-- A composed change goes on from the document that its first part leaves. -/
theorem outcome_bind (change : DocumentM α) (next : α → DocumentM β) (document : Document) :
    (change >>= next).outcome document =
      match change.outcome document with
      | (.ok answer, later) => (next answer).outcome later
      | (.error rejection, later) => (.error rejection, later) := by
  refine (Stateful.outcome_bind change next document).trans ?_
  rw [show Stateful.outcome change document = change.outcome document from rfl]
  rcases change.outcome document with ⟨answer, later⟩
  cases answer <;> rfl

/-- A composed change is accepted exactly if both of its parts are. -/
theorem outcome_bind_eq_ok_iff {change : DocumentM α} {next : α → DocumentM β}
    {document later : Document} {answer : β} :
    (change >>= next).outcome document = (.ok answer, later) ↔
      ∃ first middle, change.outcome document = (.ok first, middle) ∧
        (next first).outcome middle = (.ok answer, later) :=
  Stateful.outcome_bind_eq_ok_iff

/-- What holds of a document before a loop and is kept by each of its accepted steps holds after it. -/
theorem forM_invariant {change : α → DocumentM Unit} {items : List α} (Holds : Document → Prop)
    (keeps : ∀ item ∈ items, ∀ document later, Holds document →
      (change item).outcome document = (.ok (), later) → Holds later)
    {document later : Document} (before : Holds document)
    (accepted : (items.forM change).outcome document = (.ok (), later)) : Holds later :=
  Stateful.forM_invariant Holds keeps before accepted

/-- A change after a step outside of the document that is not rejected. -/
theorem outcome_except_bind {step : Except Rejection α} {answer : α} (stepped : step = .ok answer)
    (next : α → DocumentM β) (document : Document) :
    ((liftM step : DocumentM α) >>= next).outcome document = (next answer).outcome document := by
  rw [outcome_bind, outcome_except, stepped]

/-- A change after one that only changes the document. -/
theorem outcome_modify_bind (change : Document → Document) (next : Unit → DocumentM β)
    (document : Document) :
    ((modify change : DocumentM Unit) >>= next).outcome document =
      (next ()).outcome (change document) := by
  rw [outcome_bind, outcome_modify]

namespace GoesThrough

theorem pure : (pure () : DocumentM Unit).GoesThrough :=
  fun _ => rfl

theorem modify (change : Document → Document) : (modify change : DocumentM Unit).GoesThrough :=
  fun _ => rfl

theorem bind {change : DocumentM Unit} {next : Unit → DocumentM Unit}
    (first : change.GoesThrough) (rest : (next ()).GoesThrough) :
    (change >>= next).GoesThrough :=
  Stateful.GoesThrough.bind first rest

private theorem exceptBind {step : Except Rejection α} {answer : α} {next : α → DocumentM Unit}
    (stepped : step = .ok answer) (rest : (next answer).GoesThrough) :
    ((liftM step : DocumentM α) >>= next).GoesThrough :=
  Stateful.GoesThrough.exceptBind stepped rest

private theorem getBind {next : Document → DocumentM Unit}
    (rest : ∀ document, (next document).GoesThrough) :
    ((get : DocumentM Document) >>= next).GoesThrough :=
  Stateful.GoesThrough.getBind rest

theorem forM {change : α → DocumentM Unit} {items : List α}
    (each : ∀ item ∈ items, (change item).GoesThrough) : (items.forM change).GoesThrough :=
  Stateful.GoesThrough.forM each

end GoesThrough

end DocumentM

/-- A document is changed as the change leaves it. -/
theorem Document.outcome_of_changed {document later : Document} {change : DocumentM Unit}
    (made : document.changed change = .ok later) : change.outcome document = (.ok (), later) := by
  unfold changed at made
  unfold DocumentM.outcome
  generalize StateT.run (m := Id) (ExceptT.run change) document = outcome at made ⊢
  obtain ⟨answer, last⟩ := outcome
  cases answer with
  | error rejection => cases made
  | ok _ =>
      cases made
      rfl

/-- The forest of a table of a module with some list instances. -/
def TableSchema.forestOf (table : TableSchema) (instances : Forest Unit) : Forest Unit :=
  [.tree (.plain table.moduleName .module) [.tree (.plain table.name .container) instances]]

/-- The forest of the rows of one table: their list instances in the container of the table. -/
theorem Forest.ofRows_ofTable {schema : Schema} {table : TableSchema}
    (known : schema.table? table.name = some table) (rows : KeyedRows) :
    Forest.ofRows schema ((∅ : TableRows).insert table.name rows) =
      (table.rowsNodes rows).map table.forestOf := by
  unfold Forest.ofRows
  rw [ByName.toList_single, List.foldlM_cons]
  simp only [Schema.knownTable_eq_ok_iff.mpr known]
  change ((table.rowsNodes rows >>= fun instances => pure (addTable [] table instances)) >>=
    fun forest => pure forest) = _
  cases table.rowsNodes rows <;> rfl

private theorem TableSchema.rowsNodes_single (table : TableSchema) (rowKey : String) (fields : Fields) :
    table.rowsNodes ((∅ : KeyedRows).insert rowKey fields) = table.rowNodes rowKey fields := by
  unfold rowsNodes
  rw [ByName.toList_single, List.mapM_cons, List.mapM_nil]
  change ((table.rowNodes rowKey fields >>= fun instances => pure [instances]) :
    Except Rejection _).map List.flatten = _
  cases table.rowNodes rowKey fields with
  | error rejection => rfl
  | ok instances =>
      change Except.ok [instances].flatten = _
      rw [List.flatten_singleton]

/-- The forest of a single row. -/
theorem Forest.ofRows_single {schema : Schema} {table : TableSchema}
    (known : schema.table? table.name = some table) (rowKey : String) (fields : Fields) :
    Forest.ofRows schema (.single table.name rowKey fields) =
      (table.rowNodes rowKey fields).map table.forestOf := by
  rw [TableRows.single, Forest.ofRows_ofTable known, TableSchema.rowsNodes_single]

namespace Document

open DocumentM

variable {schema : Schema} {table : TableSchema} {rowKey : String}

private theorem goesThrough_removeRow (expands : ∃ combinations, table.expandKey rowKey = .ok combinations) :
    (removeRow table rowKey).GoesThrough := by
  obtain ⟨combinations, expanded⟩ := expands
  exact GoesThrough.exceptBind expanded (GoesThrough.forM fun _ _ => GoesThrough.modify _)

private theorem goesThrough_putRow (known : schema.table? table.name = some table)
    (expands : ∃ combinations, table.expandKey rowKey = .ok combinations) (fields : Fields) :
    (putRow schema table rowKey fields).GoesThrough := by
  obtain ⟨combinations, expanded⟩ := expands
  have translated := Forest.ofRows_single known rowKey fields
  rw [TableSchema.rowNodes, expanded] at translated
  exact GoesThrough.exceptBind translated (GoesThrough.modify _)

private theorem goesThrough_patchInstance (known : schema.table? table.name = some table) {key : String}
    (expands : ∃ combinations, table.expandKey key = .ok combinations) (patch : Patch) :
    (patchInstance schema table patch key).GoesThrough := by
  refine GoesThrough.getBind fun document => ?_
  cases document.roots.findInstance? table.name key with
  | none => exact GoesThrough.pure
  | some node => exact (GoesThrough.modify _).bind (goesThrough_putRow known expands _)

/-- Laying the state of a row over a document goes through, if the key of the row stands for list
instances, and their keys do as well should the row be patched. -/
theorem goesThrough_overlayRow (known : schema.table? table.name = some table)
    (expands : ∃ combinations, table.expandKey rowKey = .ok combinations) (state : RowState)
    (rejoins : ∀ patch, state = .overlay patch → table.Rejoins rowKey) :
    (overlayRow schema table rowKey state).GoesThrough := by
  cases state with
  | deleted => exact goesThrough_removeRow expands
  | present fields => exact (goesThrough_removeRow expands).bind (goesThrough_putRow known expands _)
  | overlay patch =>
      obtain ⟨combinations, expanded⟩ := expands
      exact GoesThrough.exceptBind expanded (GoesThrough.forM fun components member =>
        goesThrough_patchInstance known (rejoins patch rfl combinations expanded components member)
          patch)

end Document

end ConfigVetting
