import ConfigVetting.Proofs.Document.RowValues
import ConfigVetting.Proofs.Session.Integrity
import ConfigVetting.Proofs.Session.Resolving

/-! # Rows that may be deleted

A row may be deleted exactly if no row that the session sees refers to it by the values that are read off
rows. Each leaf that is read plainly refers by these as it does by the values that documents of the rows have
(`ConfigVetting.DeleteIntegrity.accepts_iff_not_isReferred`). The single value of a key with a comma in it
is not read plainly, and a row may be deleted while another one refers to it by such a value
(`ConfigVetting.DeleteIntegrity.accepts_listedPort`).
-/

namespace ConfigVetting

/-- A row with a leaf that refers to a leaf. -/
structure Referrer where
  table : TableSchema
  rowKey : String
  fields : Fields
  field : String
  target : LeafrefTarget

/-- Whether a session sees the row, and the leaf refers to one of a table. -/
structure Referrer.IsSeen (referrer : Referrer) (schema : Schema) (staged : StagedEdits)
    (rows : ByName Fields) (table : TableSchema) : Prop where
  known : schema.table? referrer.table.name = some referrer.table
  row : staged.view rows referrer.table referrer.rowKey = some referrer.fields
  refers : ∃ leaf, referrer.table.leaf? referrer.field = some leaf ∧ referrer.target ∈ leaf.targets
  leads : referrer.target.table = table.name

/-- Whether a session sees a value of the leaf in a row that it refers to, as something tells the values of
rows. -/
def Referrer.RefersTo (referrer : Referrer) (staged : StagedEdits) (rows : ByName Fields)
    (table : TableSchema) (rowKey : String)
    (holds : TableSchema → String → Fields → String → String → Prop) : Prop :=
  ∃ value, holds referrer.table referrer.rowKey referrer.fields referrer.field value ∧
    holds table rowKey (staged.fieldsSeen rows table rowKey) referrer.target.leaf value

/-- Whether the leaf, and the one it refers to in a row, are read plainly. -/
def Referrer.IsPlain (referrer : Referrer) (staged : StagedEdits) (rows : ByName Fields)
    (table : TableSchema) (rowKey : String) : Prop :=
  referrer.table.ReadsPlainly referrer.rowKey referrer.fields referrer.field ∧
    table.ReadsPlainly rowKey (staged.fieldsSeen rows table rowKey) referrer.target.leaf

/-- Whether a row that a session sees, the row itself included, refers to a row by a value of both, as
something tells the values of rows. -/
def StagedEdits.IsReferred (staged : StagedEdits) (schema : Schema) (rows : ByName Fields)
    (table : TableSchema) (rowKey : String)
    (holds : TableSchema → String → Fields → String → String → Prop) : Prop :=
  ∃ referrer : Referrer, referrer.IsSeen schema staged rows table ∧
    referrer.RefersTo staged rows table rowKey holds

namespace DeleteIntegrity

variable {setting : Setting} {staged : StagedEdits} {world : World} {target : Target}

/-- Whether a value is read off a row for a leaf. -/
def IsReadOff (table : TableSchema) (rowKey : String) (fields : Fields) (field value : String) : Prop :=
  value ∈ rowValues table field rowKey fields

/-- Whether a row may be deleted. -/
def Accepts (setting : Setting) (staged : StagedEdits) (world : World) (target : Target) : Prop :=
  ∃ later, (check setting staged target).outcome world = (.ok (), later)

/-- A row may be deleted exactly if no row refers to it by the values that are read off rows. -/
theorem accepts_iff_not_isReadOff (sound : setting.schema.IsSound)
    (available : world.store.available = true)
    (split : target.table.splitKey target.rowKey = some target.keyComponents) :
    Accepts setting staged world target ↔ ¬ staged.IsReferred setting.schema world.store.rows
      target.table target.rowKey IsReadOff := by
  have decided : Accepts setting staged world target ↔ _ :=
    Iff.trans ⟨fun ⟨later, accepted⟩ => ⟨(), later, accepted⟩, fun ⟨_, later, accepted⟩ => ⟨later,
      accepted⟩⟩
      ((passes_check staged target).accepted_iff available)
  rw [decided]
  constructor
  · rintro free ⟨referrer, seen, value, own, others⟩
    obtain ⟨leaf, declared, refers⟩ := seen.refers
    refine free referrer.target.leaf (seen.leads ▸ Schema.mem_referencedLeaves seen.known declared refers)
      (referrer.table.name, referrer.field) (seen.leads ▸ Schema.mem_referrers seen.known declared refers)
      referrer.table seen.known ⟨referrer.rowKey, referrer.fields, seen.row, meet_iff.mpr ⟨value, own, ?_⟩⟩
    rwa [Target.valuesOf_eq split]
  · rintro free field _ ⟨name, referring⟩ listed table known ⟨rowKey, fields, row, meets⟩
    obtain ⟨value, own, others⟩ := meet_iff.mp meets
    rw [Target.valuesOf_eq split] at others
    cases (sound name table known).1
    exact free ⟨⟨table, rowKey, fields, referring, ⟨target.table.name, field⟩⟩,
      ⟨known, row, (Schema.mem_referrers_iff sound known).mp listed, rfl⟩, value, own, others⟩

/-- A leaf that is read plainly refers to a row by the values that are read off the two exactly if it does by
those that their list instances give. -/
theorem refersTo_iff_of_isPlain {referrer : Referrer} {rows : ByName Fields} {table : TableSchema}
    {rowKey : String} (referrerSound : referrer.table.IsSound) (sound : table.IsSound)
    (plain : referrer.IsPlain staged rows table rowKey) :
    referrer.RefersTo staged rows table rowKey IsReadOff ↔
      referrer.RefersTo staged rows table rowKey TableSchema.RowGives :=
  exists_congr fun _ =>
    and_congr (plain.1.mem_rowValues_iff referrerSound) (plain.2.mem_rowValues_iff sound)

/-- **Delete integrity.** While the store is available, a row may be deleted exactly if no row that the
session sees refers to it by the values that are read off rows. Where a leaf that refers to the row, and the
one it refers to, are read plainly, these are as good as the values that the list instances of the two rows
give; so if all of them are, a row may be deleted exactly if no row refers to it by those. -/
theorem accepts_iff_not_isReferred [PatternReader] {modules : List ModuleDecl} {delimiter : String}
    (built : Schema.build modules delimiter = .ok setting.schema)
    (available : world.store.available = true)
    (known : setting.schema.table? target.table.name = some target.table)
    (split : target.table.splitKey target.rowKey = some target.keyComponents) :
    (Accepts setting staged world target ↔ ¬ staged.IsReferred setting.schema world.store.rows
      target.table target.rowKey IsReadOff) ∧
    (∀ referrer : Referrer, referrer.IsSeen setting.schema staged world.store.rows target.table →
      referrer.IsPlain staged world.store.rows target.table target.rowKey →
        (referrer.RefersTo staged world.store.rows target.table target.rowKey IsReadOff ↔
          referrer.RefersTo staged world.store.rows target.table target.rowKey TableSchema.RowGives)) ∧
    ((∀ referrer : Referrer, referrer.IsSeen setting.schema staged world.store.rows target.table →
        referrer.IsPlain staged world.store.rows target.table target.rowKey) →
      (Accepts setting staged world target ↔ ¬ staged.IsReferred setting.schema world.store.rows
        target.table target.rowKey TableSchema.RowGives)) := by
  have sound := Schema.isSound_of_build built
  have each : ∀ referrer : Referrer,
      referrer.IsSeen setting.schema staged world.store.rows target.table →
        referrer.IsPlain staged world.store.rows target.table target.rowKey → (_ ↔ _) :=
    fun referrer seen => refersTo_iff_of_isPlain (sound _ _ seen.known).2 (sound _ _ known).2
  refine ⟨accepts_iff_not_isReadOff sound available split, each, fun plain => ?_⟩
  rw [accepts_iff_not_isReadOff sound available split, not_iff_not]
  exact exists_congr fun referrer => and_congr_right fun seen => each referrer seen (plain referrer seen)

/-- A world with two ports, and a member that refers to one of them. -/
def memberWorld (port : String) : World where
  store := {
    database := 0
    rows := (((∅ : ByName Fields).insert "PORT|y" ∅).insert (String.append "PORT|" port) ∅).insert
      "MEMBER|r"
      ((∅ : Fields).insert "port" port) }

/-- A port to which no member refers may be deleted. -/
theorem accepts_freePort : ∃ port, Session.memberEngine.setting.schema.table? "PORT" = some port ∧
    Accepts Session.memberEngine.setting {} (memberWorld "x") ⟨port, "y", ["y"]⟩ ∧
    ¬ StagedEdits.IsReferred {} Session.memberEngine.setting.schema (memberWorld "x").store.rows port "y"
      TableSchema.RowGives := by
  have faultless : (Schema.build [{ name := "m", tables := Session.memberTables }]
      Schema.usualDelimiter).isOk := by
    decide +kernel
  have facts : (Session.memberEngine.setting.schema.table? "PORT").any fun port =>
      port.name = "PORT" ∧ port.splitKey "y" = some ["y"] ∧
        ((check Session.memberEngine.setting {} ⟨port, "y", ["y"]⟩).outcome (memberWorld "x")).1.isOk ∧
        ∀ table ∈ Session.memberEngine.setting.schema.tables.toList,
          ∀ leaf ∈ table.2.leaves.toList, ∀ target ∈ leaf.2.targets,
            ∀ row ∈ (memberWorld "x").store.rows.toList, ∀ rowKey ∈ table.2.rowKey? row.1,
              table.2.ReadsPlainly rowKey row.2 leaf.1 ∧ port.ReadsPlainly "y"
                (StagedEdits.fieldsSeen {} (memberWorld "x").store.rows port "y") target.leaf := by
    decide +kernel
  obtain ⟨port, known, facts⟩ := (Option.any_eq_true _ _).mp facts
  obtain ⟨named, split, accepted, plain⟩ := of_decide_eq_true facts
  obtain ⟨_, later, accepted⟩ := WorldM.exists_outcome_of_isOk accepted
  refine ⟨port, known, ⟨later, accepted⟩, ((accepts_iff_not_isReferred (Schema.build_eq_ofModules faultless)
    rfl (named.symm ▸ known) split).2.2 ?_).mp ⟨later, accepted⟩⟩
  intro referrer seen
  obtain ⟨leaf, declared, refers⟩ := seen.refers
  exact plain _ (Std.ExtTreeMap.mem_toList_iff_getElem?_eq_some.mpr seen.known) _
    (Std.ExtTreeMap.mem_toList_iff_getElem?_eq_some.mpr declared) _ refers _
    (Std.ExtTreeMap.mem_toList_iff_getElem?_eq_some.mpr seen.row) _
      (TableSchema.rowKey?_eq_some_iff.mpr rfl)

/-- A port with a comma in its name may be deleted although a member refers to it: its name is read as a
list of two ports. -/
theorem accepts_listedPort : ∃ port, Session.memberEngine.setting.schema.table? "PORT" = some port ∧
    (memberWorld "a,b").store.available = true ∧ port.splitKey "a,b" = some ["a,b"] ∧
    Accepts Session.memberEngine.setting {} (memberWorld "a,b") ⟨port, "a,b", ["a,b"]⟩ ∧
    StagedEdits.IsReferred {} Session.memberEngine.setting.schema (memberWorld "a,b").store.rows port "a,b"
      TableSchema.RowGives := by
  have facts : (Session.memberEngine.setting.schema.table? "PORT").any fun port =>
      (Session.memberEngine.setting.schema.table? "MEMBER").any fun member =>
        (member.leaf? "port").any fun leaf =>
          (port.rowNodes "a,b" (StagedEdits.fieldsSeen {} (memberWorld "a,b").store.rows port
              "a,b")).toOption.any fun portNodes =>
            (member.rowNodes "r" ((∅ : Fields).insert "port" "a,b")).toOption.any fun memberNodes =>
              port.name = "PORT" ∧ member.name = "MEMBER" ∧ ⟨"PORT", "name"⟩ ∈ leaf.targets ∧
                port.splitKey "a,b" = some ["a,b"] ∧
                ((check Session.memberEngine.setting {} ⟨port, "a,b", ["a,b"]⟩).outcome
                  (memberWorld "a,b")).1.isOk ∧
                StagedEdits.view {} (memberWorld "a,b").store.rows member "r" =
                  some ((∅ : Fields).insert "port" "a,b") ∧
                (∃ node ∈ memberNodes, "a,b" ∈ node.leafValues "port") ∧
                ∃ node ∈ portNodes, "a,b" ∈ node.leafValues "name" := by
    decide +kernel
  obtain ⟨port, known, facts⟩ := (Option.any_eq_true _ _).mp facts
  obtain ⟨member, memberKnown, facts⟩ := (Option.any_eq_true _ _).mp facts
  obtain ⟨leaf, declared, facts⟩ := (Option.any_eq_true _ _).mp facts
  obtain ⟨portNodes, portMade, facts⟩ := (Option.any_eq_true _ _).mp facts
  obtain ⟨memberNodes, memberMade, facts⟩ := (Option.any_eq_true _ _).mp facts
  obtain ⟨named, memberNamed, refers, split, accepted, row, ⟨node, inside, given⟩, own, ownInside, held⟩ :=
    of_decide_eq_true facts
  obtain ⟨_, later, accepted⟩ := WorldM.exists_outcome_of_isOk accepted
  refine ⟨port, known, rfl, split, ⟨later, accepted⟩,
    ⟨member, "r", (∅ : Fields).insert "port" "a,b", "port", ⟨"PORT", "name"⟩⟩,
    ⟨memberNamed.symm ▸ memberKnown, row, ⟨leaf, declared, refers⟩, named.symm⟩, "a,b", ?_, ?_⟩
  · exact ⟨memberNodes, Except.toOption_eq_some_iff.mp memberMade, node, inside, Or.inl given⟩
  · exact ⟨portNodes, Except.toOption_eq_some_iff.mp portMade, own, ownInside, Or.inl held⟩

end DeleteIntegrity

end ConfigVetting
