import ConfigVetting.Proofs.Document.Accepted
import ConfigVetting.Proofs.Session.Dependent
import ConfigVetting.Proofs.Session.Integrity
import ConfigVetting.Proofs.Session.Tracing

/-! # References through a batch

A value that refers to components of keys resolves if a row that the session sees has it in its key. If
all values resolve before a batch that is accepted, then after it each of them resolves, or it escapes the
checks in one of a few ways (`ConfigVetting.Session.IsPrepared.resolves_or_escapes`).
-/

namespace ConfigVetting

/-- A value that a row has in a leaf. -/
structure Reference where
  table : TableSchema
  rowKey : String
  fields : Fields
  field : String
  leaf : LeafSchema
  value : String

namespace Reference

/-- Whether a row that a session sees has the value, in a leaf that refers to components of keys. -/
structure IsSeen (reference : Reference) (schema : Schema) (staged : StagedEdits)
    (rows : ByName Fields) : Prop where
  known : schema.table? reference.table.name = some reference.table
  row : staged.view rows reference.table reference.rowKey = some reference.fields
  declared : reference.table.leaf? reference.field = some reference.leaf
  refers : schema.RefersToKeys reference.leaf
  filled : reference.value ≠ ""
  shown : reference.table.Says reference.rowKey reference.fields reference.field reference.value ∨
    reference.table.Enters reference.rowKey reference.fields reference.field reference.value

/-- Whether a row that a session sees has the value in a component of its key to which the leaf refers. -/
def Resolves (reference : Reference) (schema : Schema) (staged : StagedEdits) (rows : ByName Fields) :
    Prop :=
  ∃ target ∈ reference.leaf.targets, ∃ table, schema.table? target.table = some table ∧
    staged.Sees rows table target.leaf reference.value

/-- Whether the row of an edit has the value in a component of its key to which the leaf refers. -/
def LeadsTo (reference : Reference) (keyed : KeyedEdit) : Prop :=
  ∃ target ∈ reference.leaf.targets, keyed.table.name = target.table ∧
    keyed.table.KeyHolds keyed.rowKey target.leaf reference.value

/-- Whether edits create or update the row of the value. -/
def IsWritten (reference : Reference) (edits : List KeyedEdit) : Prop :=
  ∃ keyed ∈ edits, (keyed.edit.operation = .create ∨ keyed.edit.operation = .update) ∧
    keyed.table.name = reference.table.name ∧ keyed.rowKey = reference.rowKey

/-- The ways in which a value gets past the checks of a batch in a world that began with some cache. -/
inductive Escapes (reference : Reference) (setting : Setting) (start : World)
    (edits : List KeyedEdit) (staged : StagedEdits) : Prop where
  /-- The batch both writes and removes a row that the value leads to. The value is held against a
  subject that has the row, whatever became of it. -/
  | removed (written : reference.IsWritten edits) {keyed : KeyedEdit} (member : keyed ∈ edits)
      (writes : keyed.edit.operation = .create ∨ keyed.edit.operation = .update)
      (leads : reference.LeadsTo keyed)
      (gone : staged.view start.store.rows keyed.table keyed.rowKey = none)
  /-- The batch deletes a row that the value leads to. What refers to it is looked for among the values
  of fields, read as lists. -/
  | unread {keyed : KeyedEdit} (member : keyed ∈ edits) (removes : keyed.removesRow = true)
      (leads : reference.LeadsTo keyed)
      (unreadable : ¬ reference.table.Says reference.rowKey reference.fields reference.field
          reference.value ∨ reference.value ∉ listMembers reference.value)
  /-- The value names an entry. Entries are judged by the values they have. -/
  | unjudged (written : reference.IsWritten edits)
      (naming : ¬ reference.table.Says reference.rowKey reference.fields reference.field
          reference.value)
      (others : ∀ nameLeaf, reference.table.mapLeaves ≠ some (nameLeaf, reference.field))
  /-- The row has names that stand for no one field. Patches take them for others. -/
  | respelled (inFields : ¬ reference.table.KeyHolds reference.rowKey reference.field reference.value)
      (irregular : listSpelling placeholder ∈ reference.fields ∨
        ∃ edit ∈ staged.edits reference.table.name reference.rowKey, ¬ edit.IsRegular)
  /-- A table that the leaf refers to is cached, and its delimiter joins the components of several keys to
  the key of one list instance. -/
  | overlapping (written : reference.IsWritten edits) {target : LeafrefTarget}
      (refers : target ∈ reference.leaf.targets) {table : TableSchema}
      (known : setting.schema.table? target.table = some table)
      (cached : table.name ∈ start.cache.entries) (overlaps : ¬ table.JoinsPlainly)
  /-- The cache began with a document that is not as the store makes it. -/
  | outdated (written : reference.IsWritten edits)
      (differs : ¬ start.cache.IsAsStored setting start.store.rows)

end Reference

/-- Whether every value that refers to components of keys resolves in what a session sees. -/
def StagedEdits.IsResolved (staged : StagedEdits) (schema : Schema) (rows : ByName Fields) : Prop :=
  ∀ reference : Reference, reference.IsSeen schema staged rows → reference.Resolves schema staged rows

namespace Group

/-- The values that a judged row shows in a leaf are held by the rows that are judged with it or by the
data that these depend on. -/
theorem IsJudged.exists_target {engine : Engine}
    (processor : engine.processor = .ofSchema engine.setting.schema) {requests : StagedEdits}
    {operation : Operation} {rows : TableRows} {world : World} {group : Group}
    (judged : IsJudged engine requests operation rows world group)
    (acts : operation = .create ∨ operation = .update) {table : TableSchema}
    (known : engine.setting.schema.table? table.name = some table) {rowKey : String}
    {fields : Fields} (row : (rows.keyed table.name)[rowKey]? = some fields) {field value : String}
    {leaf : LeafSchema} (declared : table.leaf? field = some leaf) (refers : leaf.targets ≠ [])
    (filled : value ≠ "")
    (shown : table.Says rowKey fields field value ∨
      (∃ nameLeaf, table.mapLeaves = some (nameLeaf, field)) ∧
        table.Enters rowKey fields field value) :
    ∃ target ∈ leaf.targets, group.subject.trees.Holds target.table target.leaf value ∨
      ∃ dependent later, (Dependency.ofSubject { setting := engine.setting, staged := requests }
        group.subject.roots).outcome world = (.ok dependent, later) ∧
          dependent.trees.Holds target.table target.leaf value := by
  obtain ⟨dependent, later, loaded, accepted⟩ := judged.accepted acts
  rw [processor] at accepted
  obtain ⟨container, below, named, instances⟩ :=
    Document.exists_container_ofRows judged.translated known row
  obtain ⟨components, inside, given⟩ : ∃ components,
      table.instanceNode fields components ∈ container.children ∧
        table.Gives (table.instanceNode fields components) field value := by
    rcases shown with ⟨combinations, expanded, components, chosen, said⟩ |
      ⟨⟨nameLeaf, mapped⟩, combinations, expanded, components, chosen, entered⟩
    · exact ⟨components, instances combinations expanded components chosen, Or.inl said⟩
    · exact ⟨components, instances combinations expanded components chosen,
        Or.inr ⟨nameLeaf, mapped, entered⟩⟩
  obtain ⟨target, listed, held⟩ := Document.holds_of_check acts accepted known below named inside
    declared refers filled given
  exact ⟨target, listed, held.imp_right fun inDependent => ⟨dependent, later, loaded, inDependent⟩⟩

end Group

end ConfigVetting
