import ConfigVetting.DeleteIntegrity
import ConfigVetting.Dependency
import ConfigVetting.Engine

/-! # Sessions

A session vets batches of edits for one caller. A batch is staged edit by edit, then each operation's
rows are judged together as one subject, and last the accepted rows are laid over the document of
the session and the cached tables. Later batches see the accepted ones; the store never changes. A
rejected batch leaves the staged edits and the counts as they were.
-/

namespace ConfigVetting

/-- Where a session is in its life. -/
inductive SessionPhase where
  /-- Nothing was vetted yet. -/
  | open
  | staging
  | closed
  deriving DecidableEq, Repr

/-- The name of a phase. -/
def SessionPhase.name : SessionPhase → String
  | .open => "open"
  | .staging => "staging"
  | .closed => "closed"

/-- The accepted edits, and how many rows each table with a limit has by them. -/
structure Staged where
  requests : StagedEdits := {}
  counts : ByName Nat := ∅

/-- The state of one caller. -/
structure Session where
  /-- What the journal calls the session. -/
  id : String
  phase : SessionPhase := .open
  staged : Staged := {}
  /-- What the accepted edits say, taken together. -/
  document : Document := {}

/-- An edit whose key is known to belong to a table. -/
structure KeyedEdit where
  table : TableSchema
  rowKey : String
  keyComponents : List String
  edit : Edit

/-- Rows that are judged together, and the document that they are. -/
structure Group where
  operation : Operation
  rows : TableRows
  subject : Document

/-- The edit with its key resolved. -/
def Schema.keyed (schema : Schema) (edit : Edit) : Except Rejection KeyedEdit := do
  match schema.splitStoreKey edit.key with
  | none => throw (.invalidKey edit.key "no table matches the key")
  | some (table, rowKey) =>
    discard (table.expandKey rowKey)
    let keyComponents ← table.components rowKey
    return { table, rowKey, keyComponents, edit }

namespace KeyedEdit

/-- Whether an edit removes its row. -/
def removesRow (keyed : KeyedEdit) : Bool :=
  keyed.edit.operation = .delete && keyed.edit.fields.areNone

end KeyedEdit

namespace Staged

/-- The staged edits with one more. -/
def record (staged : Staged) (keyed : KeyedEdit) : Staged :=
  let edit := keyed.edit
  { staged with
    requests := staged.requests.record keyed.table.name keyed.rowKey edit.operation edit.fields }

/-- Whether a row is there, as far as the staged edits tell, else as the store holds it. -/
def isThere (staged : Staged) (table : TableSchema) (rowKey : String) : WorldM Bool :=
  match staged.requests.isThere? table.name rowKey with
  | some known => return known
  | none => World.askStore (Store.holds (table.storeKey rowKey))

/-- Checks that the row of an edit exists or not, as the operation needs it. -/
def checkExistence (staged : Staged) (keyed : KeyedEdit) : WorldM Unit := do
  if keyed.edit.operation = .none then return
  let table := keyed.table
  let isThere ← staged.isThere table keyed.rowKey
  if keyed.edit.operation = .create then
    if isThere then throw (.keyExists table.name keyed.keyComponents)
  else if !isThere then throw (.keyNotFound table.name keyed.keyComponents)

/-- How many rows a table has, counted in the store unless it is known. -/
def count (staged : Staged) (table : TableSchema) : WorldM Nat :=
  match staged.counts[table.name]? with
  | some count => return count
  | none => return (← World.askStore (Store.keys table.storeStart)).length

/-- The counts with the row of an edit added or removed, unless that makes too many. -/
def countRow (staged : Staged) (keyed : KeyedEdit) : WorldM Staged := do
  let table := keyed.table
  match table.maxElements with
  | none => return staged
  | some limit =>
    if keyed.removesRow then
      let count ← staged.count table
      return { staged with counts := staged.counts.insert table.name (count - 1) }
    else if keyed.edit.operation = .create then
      let count ← staged.count table
      if limit < count + 1 then
        throw ((Rejection.tooManyElements table.name limit).onRow table.name keyed.keyComponents)
      return { staged with counts := staged.counts.insert table.name (count + 1) }
    else return staged

/-- The staged edits with an edit that is context only. -/
def addContext (staged : Staged) (keyed : KeyedEdit) : WorldM Staged := do
  return (← staged.countRow keyed).record keyed

/-- The staged edits with an edit that passes its own checks. -/
def addChecked (setting : Setting) (staged : Staged) (keyed : KeyedEdit) : WorldM Staged := do
  staged.checkExistence keyed
  if keyed.removesRow then
    DeleteIntegrity.check setting staged.requests
      ⟨keyed.table, keyed.rowKey, keyed.keyComponents⟩
  staged.addContext keyed

end Staged

namespace Group

/-- Rows with the fields of an edit added to those of its row. -/
def addRow (rows : TableRows) (keyed : KeyedEdit) : TableRows :=
  let fields := ((rows.keyed keyed.table.name)[keyed.rowKey]?).getD ∅
  rows.put keyed.table.name keyed.rowKey (fields ∪ keyed.edit.fields)

/-- The operations of edits, in the order in which they come first, each with the rows of its
edits. -/
def byOperation (edits : List KeyedEdit) : List (Operation × TableRows) :=
  (edits.map fun keyed => keyed.edit.operation).eraseDups.map fun operation =>
    (operation, (edits.filter fun keyed => keyed.edit.operation = operation).foldl addRow ∅)

/-- The rows of one operation as a subject that was judged, with the data it depends on. -/
def judged (engine : Engine) (requests : StagedEdits) (operation : Operation) (rows : TableRows) :
    WorldM Group := do
  let subject ← (Document.ofRows engine.setting.schema rows : Except Rejection _)
  if operation ≠ .none then
    let dependent ←
      if operation = .delete then pure Document.empty
      else Dependency.ofSubject { setting := engine.setting, staged := requests } subject.roots
    engine.judge subject (some dependent) operation
  return { operation, rows, subject }

/-- Takes out or changes the rows of a group that deletes. -/
def deleteFrom (schema : Schema) (group : Group) : DocumentM Unit :=
  group.rows.toList.forM fun (name, keyed) =>
    match schema.table? name with
    | none => pure ()
    | some table => keyed.toList.forM fun (rowKey, fields) =>
        Document.overlayRow schema table rowKey (.ofEdit group.operation fields)

/-- A document with a group laid over it, and whether all of it could be. -/
def layOver (schema : Schema) (group : Group) (document : Document) :
    Except Rejection Unit × Document :=
  if group.operation = .delete then
    StateT.run (m := Id) (ExceptT.run (group.deleteFrom schema)) document
  else (.ok (), document.merge group.subject.roots)

/-- Lays a group over a document and the cached tables. What was done before a rejection stays. -/
def commit (setting : Setting) (group : Group) (document : Document) :
    StateM World (Except Rejection Unit × Document) := do
  match group.layOver setting.schema document with
  | (.error rejection, document) => return (.error rejection, document)
  | (.ok (), document) =>
    return (← (Cache.fold setting group.rows group.operation).run, document)

/-- Lays groups over a document and the cached tables, up to the first rejection. -/
def commitAll (setting : Setting) : List Group → Document →
    StateM World (Except Rejection Unit × Document)
  | [], document => return (.ok (), document)
  | group :: rest, document => do
    match ← group.commit setting document with
    | (.ok (), document) => commitAll setting rest document
    | rejected => return rejected

end Group

namespace Session

/-- A new session. -/
def start (id : String) : StateM World Session := do
  World.note .sessionOpen [("session", id)]
  return { id }

/-- The staged edits with a batch added and the groups of its rows, all judged. -/
def prepare (engine : Engine) (staged : Staged) (edits : List Edit) :
    WorldM (Staged × List Group) := do
  let keyed ← (edits.mapM engine.setting.schema.keyed : Except Rejection _)
  let (checked, context) := keyed.partition fun keyed => keyed.edit.validateNow
  let staged ← context.foldlM Staged.addContext staged
  let staged ← checked.foldlM (Staged.addChecked engine.setting) staged
  let groups ← (Group.byOperation checked).mapM fun (operation, rows) =>
    Group.judged engine staged.requests operation rows
  return (staged, groups)

/-- Vets a batch: the staged edits and the document after it. If it is rejected, the staged edits
are those from before. -/
def vet (engine : Engine) (session : Session) (edits : List Edit) :
    StateM World (Except Rejection Unit × Session) := do
  match ← (prepare engine session.staged edits).run with
  | .error rejection => return (.error rejection, session)
  | .ok (staged, groups) =>
    match ← Group.commitAll engine.setting groups session.document with
    | (.error rejection, document) => return (.error rejection, { session with document })
    | (.ok (), document) =>
      return (.ok (), { session with staged, document := document.compactIfSparse })

/-- Writes the outcome of a batch to the journal. -/
def report (session : Session) (edits : List Edit) :
    Except Rejection Unit → StateM World Unit
  | .ok () => World.note .validationAccepted
      [("edits", toString edits.length), ("session", session.id)]
  | .error rejection => World.note .validationRejected [("code", rejection.code.text),
      ("error", rejection.message), ("session", session.id), ("table", rejection.info.table)]

/-- Vets a batch of edits as one unit. A closed session rejects everything. -/
def validate (engine : Engine) (session : Session) (edits : List Edit) :
    StateM World (Except Rejection Unit × Session) := do
  if session.phase = .closed then
    return (.error (.internal "Session is closed"), session)
  let (outcome, session) ← vet engine { session with phase := .staging } edits
  session.report edits outcome
  return (outcome, session)

/-- The session with all it holds given up. -/
def close (session : Session) : StateM World Session := do
  if session.phase = .closed then return session
  World.note .sessionClose [("session", session.id)]
  return { id := session.id, phase := .closed }

end Session

end ConfigVetting
