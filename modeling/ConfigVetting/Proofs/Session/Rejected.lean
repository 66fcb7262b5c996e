import ConfigVetting.Proofs.Document.Changes
import ConfigVetting.Proofs.Session.Grouping
import ConfigVetting.Proofs.Session.Preparation

/-! # Rejected batches

A rejected batch leaves the session as it was, and the world but for what reading does to it
(`ConfigVetting.Session.validate_rejected`). Staging is undone as a whole, but documents are changed in
place; so it matters that nothing can be rejected any more once the first group is laid over them
(`ConfigVetting.Group.commitAll_goesThrough`). That holds as long as the list instances of patched
rows have keys that are row keys again.
-/

namespace ConfigVetting

open WorldM

namespace Group

/-- Whether a group can be laid over documents: the keys of its rows stand for list instances, and
their keys do as well where the group patches a row. -/
def IsLayable (schema : Schema) (group : Group) : Prop :=
  ∀ name keyed, (name, keyed) ∈ group.rows.toList → ∃ table,
    schema.table? name = some table ∧ table.name = name ∧
      ∀ rowKey fields, (rowKey, fields) ∈ keyed.toList →
        (∃ combinations, table.expandKey rowKey = .ok combinations) ∧
          ∀ patch, RowState.ofEdit group.operation fields = .overlay patch →
            group.operation ≠ .none → table.Rejoins rowKey

variable {setting : Setting}

private theorem goesThrough_overlayRow {schema : Schema} {group : Group} (layable : group.IsLayable schema)
    (acts : group.operation ≠ .none) {name : String} {keyed : KeyedRows}
    (member : (name, keyed) ∈ group.rows.toList) {table : TableSchema}
    (known : schema.table? name = some table) :
    (keyed.toList.forM fun (rowKey, fields) => Document.overlayRow schema table rowKey
      (.ofEdit group.operation fields)).GoesThrough := by
  obtain ⟨_, found, named, rows⟩ := layable name keyed member
  cases known.symm.trans found
  refine DocumentM.GoesThrough.forM fun row inside => ?_
  obtain ⟨expands, rejoins⟩ := rows row.1 row.2 inside
  exact Document.goesThrough_overlayRow (named.symm ▸ known) expands _
    fun patch patched => rejoins patch patched acts

private theorem goesThrough_deleteFrom {schema : Schema} {group : Group}
    (layable : group.IsLayable schema) (acts : group.operation ≠ .none) :
    (group.deleteFrom schema).GoesThrough := by
  refine DocumentM.GoesThrough.forM fun rows member => ?_
  obtain ⟨name, keyed⟩ := rows
  cases known : schema.table? name with
  | none => simpa only [known] using DocumentM.GoesThrough.pure
  | some table =>
      simp only [known]
      exact goesThrough_overlayRow layable acts member known

private theorem layOver_goesThrough {schema : Schema} {group : Group} (layable : group.IsLayable schema)
    (document : Document) : (group.layOver schema document).1 = .ok () := by
  unfold layOver
  by_cases deletes : group.operation = .delete
  · rw [if_pos deletes]
    exact goesThrough_deleteFrom layable (by rw [deletes]; decide) document
  · rw [if_neg deletes]

private theorem goesThrough_changeDocument (name : String) {change : DocumentM Unit}
    (goesThrough : change.GoesThrough) : (Cache.changeDocument name change).GoesThrough := by
  intro world
  rw [Cache.outcome_changeDocument]
  cases world.cache.document? name with
  | none => rfl
  | some document => exact goesThrough document

private theorem goesThrough_fold {group : Group} (layable : group.IsLayable setting.schema) :
    (Cache.fold setting group.rows group.operation).GoesThrough := by
  unfold Cache.fold
  by_cases acts : group.operation = .none
  · rw [if_pos acts]
    exact GoesThrough.pure
  · rw [if_neg acts]
    refine GoesThrough.forM fun rows member => ?_
    obtain ⟨name, keyed⟩ := rows
    refine GoesThrough.getBind fun world => ?_
    by_cases absent : (world.cache.document? name).isNone
    · rw [if_pos absent]
      exact GoesThrough.pure
    · rw [if_neg absent]
      obtain ⟨table, known, _, _⟩ := layable name keyed member
      refine GoesThrough.exceptBind (Schema.knownTable_eq_ok_iff.mpr known) ?_
      refine (goesThrough_changeDocument name ?_).bind (GoesThrough.state _)
      exact (goesThrough_overlayRow layable acts member known).bind
        (DocumentM.GoesThrough.modify _)

/-- Laying a group over a document and the cached tables goes through. -/
theorem commit_goesThrough {group : Group} (layable : group.IsLayable setting.schema)
    (document : Document) (world : World) :
    (World.run (group.commit setting document) world).1.1 = .ok () := by
  have laid := layOver_goesThrough layable document
  have folded := goesThrough_fold layable world
  unfold commit
  rcases split : group.layOver setting.schema document with ⟨answer, laidOver⟩
  rw [split] at laid
  cases laid
  exact folded

/-- Laying groups over a document and the cached tables goes through. -/
theorem commitAll_goesThrough {groups : List Group}
    (layable : ∀ group ∈ groups, group.IsLayable setting.schema) (document : Document)
    (world : World) : (World.run (commitAll setting groups document) world).1.1 = .ok () := by
  induction groups generalizing document world with
  | nil => rfl
  | cons group groups ih =>
      have done := commit_goesThrough (layable group List.mem_cons_self) document world
      have rest := ih fun later member => layable later (List.mem_cons_of_mem _ member)
      rw [commitAll, World.run_bind]
      rcases committed : World.run (group.commit setting document) world with
        ⟨⟨answer, laidOver⟩, later⟩
      rw [committed] at done
      cases done
      exact rest laidOver later

/-- The groups of sound edits can be laid over documents, if the rows that they patch can be
patched. -/
theorem isLayable_of_rowsOf {schema : Schema} {edits : List KeyedEdit}
    (keyedSound : ∀ keyed ∈ edits, keyed.IsSound schema)
    (rejoins : ∀ keyed ∈ edits, keyed.edit.patchesRow → keyed.table.Rejoins keyed.rowKey)
    {group : Group} (gathered : group.rows = rowsOf group.operation edits) :
    group.IsLayable schema := by
  intro name rows member
  have stored : group.rows[name]? = some rows := Std.ExtTreeMap.mem_toList_iff_getElem?_eq_some.mp member
  have inside : name ∈ rowsOf group.operation edits := by
    rw [← gathered, Std.ExtTreeMap.mem_iff_isSome_getElem?, stored]
    rfl
  obtain ⟨keyed, given, _, named⟩ := exists_of_mem_rowsOf inside
  have known := (keyedSound keyed given).known
  refine ⟨keyed.table, named ▸ known, named, fun rowKey fields row => ?_⟩
  have found : ((rowsOf group.operation edits).keyed name)[rowKey]? = some fields := by
    rw [← gathered, TableRows.keyed, stored]
    exact Std.ExtTreeMap.mem_toList_iff_getElem?_eq_some.mp row
  rw [getElem?_rowsOf] at found
  obtain ⟨own, ofRow⟩ := exists_of_gathered found
  obtain ⟨member, _, sameTable, rfl⟩ := mem_editsOf_iff.mp ofRow
  have ownSound := keyedSound own member
  have same : own.table = keyed.table := by
    have ownKnown := ownSound.known
    rw [sameTable, ← named, known] at ownKnown
    exact (Option.some.inj ownKnown).symm
  refine ⟨same ▸ ownSound.expands, fun patch patched acts => ?_⟩
  have operated : ∀ keyed ∈ editsOf group.operation name own.rowKey edits,
      keyed.edit.operation = group.operation :=
    fun keyed inRow => (mem_editsOf_iff.mp inRow).2.1
  obtain ⟨patching, inRow, patches⟩ := exists_patching found operated patched acts
  obtain ⟨member, _, sameTable, sameKey⟩ := mem_editsOf_iff.mp inRow
  have patchingKnown := (keyedSound patching member).known
  rw [sameTable, ← named, known] at patchingKnown
  rw [Option.some.inj patchingKnown, ← sameKey]
  exact rejoins patching member patches

end Group

namespace Session

/-- Whether every row that a batch patches has list instances whose keys are row keys again. -/
def CanPatch (schema : Schema) (edits : List Edit) : Prop :=
  ∀ edit ∈ edits, edit.validateNow → edit.patchesRow →
    ∀ row ∈ schema.splitStoreKey edit.key, row.1.Rejoins row.2

instance (schema : Schema) (edits : List Edit) : Decidable (CanPatch schema edits) :=
  inferInstanceAs (Decidable (∀ edit ∈ edits, _))

/-- Every batch can patch its rows if no table has a delimiter that overlaps itself behind a repeating
component. -/
theorem canPatch_of_joinsPlainly {schema : Schema} (sound : schema.IsSound)
    (joins : ∀ name table, schema.table? name = some table → table.JoinsPlainly)
    (edits : List Edit) : CanPatch schema edits := by
  rintro edit - - - ⟨table, rowKey⟩ owned
  obtain ⟨known, _⟩ := Schema.splitStoreKey_sound sound owned
  exact (joins table.name table known).rejoins (sound table.name table known).2 rowKey

/-- The groups of a batch that was prepared can be laid over documents. -/
theorem isLayable_of_prepared {engine : Engine} (sound : engine.setting.schema.IsSound)
    {staged prepared : Staged} {edits : List Edit} {world : World} {keyed : List KeyedEdit}
    {groups : List Group} (patchable : CanPatch engine.setting.schema edits)
    (isPrepared : IsPrepared engine staged edits world keyed prepared groups) :
    ∀ group ∈ groups, group.IsLayable engine.setting.schema := by
  intro group member
  obtain ⟨⟨operation, rows⟩, inside, before, _, judged⟩ :=
    Except.exists_of_mem_right isPrepared.judged member
  have gathered := (Group.mem_byOperation_iff.mp inside).2
  have resolved : ∀ one ∈ keyed.filter fun keyed => keyed.edit.validateNow,
      one.IsSound engine.setting.schema ∧ one.edit ∈ edits ∧ one.edit.validateNow := by
    intro one checked
    obtain ⟨held, now⟩ := List.mem_filter.mp checked
    obtain ⟨isSound, given⟩ := isPrepared.isSound_of_mem sound held
    exact ⟨isSound, given, now⟩
  have rejoins : ∀ one ∈ keyed.filter fun keyed => keyed.edit.validateNow,
      one.edit.patchesRow → one.table.Rejoins one.rowKey := by
    intro one checked patches
    obtain ⟨isSound, given, now⟩ := resolved one checked
    exact patchable one.edit given now patches (one.table, one.rowKey) isSound.owned
  refine Group.isLayable_of_rowsOf (fun one checked => (resolved one checked).1) rejoins ?_
  rw [judged.gathered, judged.operated]
  exact gathered

/-- Vetting a batch is preparing it and, unless it is rejected, laying its groups over the document
of the session. -/
theorem run_vet (engine : Engine) (session : Session) (edits : List Edit) (world : World) :
    World.run (session.vet engine edits) world =
      match (prepare engine session.staged edits).outcome world with
      | (.error rejection, later) => ((.error rejection, session), later)
      | (.ok (staged, groups), later) =>
        match World.run (Group.commitAll engine.setting groups session.document) later with
        | ((.error rejection, document), last) =>
          ((.error rejection, { session with document }), last)
        | ((.ok (), document), last) =>
          ((.ok (), { session with staged, document := document.compactIfSparse }), last) := by
  rw [vet, World.run_bind, run_run]
  rcases (prepare engine session.staged edits).outcome world with ⟨answer, later⟩
  cases answer with
  | error rejection => rfl
  | ok answer =>
      obtain ⟨staged, groups⟩ := answer
      simp only
      rw [World.run_bind]
      rcases World.run (Group.commitAll engine.setting groups session.document) later with
        ⟨⟨answer, document⟩, last⟩
      cases answer <;> rfl

private theorem vet_rejected {engine : Engine} (sound : engine.setting.schema.IsSound) (session : Session)
    {edits : List Edit} (patchable : CanPatch engine.setting.schema edits) (world : World)
    (rejected : (World.run (session.vet engine edits) world).1.1 ≠ .ok ()) :
    (World.run (session.vet engine edits) world).1.2 = session ∧
      world.OnlyRead engine.setting (World.run (session.vet engine edits) world).2 := by
  rw [run_vet] at rejected ⊢
  rcases prepared : (prepare engine session.staged edits).outcome world with ⟨answer, later⟩
  rw [prepared] at rejected
  have read := (isReading_prepare engine session.staged edits).onlyRead prepared
  cases answer with
  | error rejection => exact ⟨rfl, read⟩
  | ok answer =>
      obtain ⟨staged, groups⟩ := answer
      obtain ⟨keyed, isPrepared⟩ := isPrepared_of_prepare prepared
      have committed := Group.commitAll_goesThrough
        (isLayable_of_prepared sound patchable isPrepared) session.document later
      rcases laid : World.run (Group.commitAll engine.setting groups session.document) later with
        ⟨⟨answer, document⟩, last⟩
      rw [laid] at committed
      simp only [laid] at rejected
      cases committed
      exact absurd rfl rejected

/-- The outcome of a batch is that of vetting it, and is written to the journal. -/
theorem run_validate (engine : Engine) {session : Session} (live : session.phase ≠ .closed)
    (edits : List Edit) (world : World) :
    ∃ journal, World.run (session.validate engine edits) world =
      ((World.run ({ session with phase := .staging }.vet engine edits) world).1,
        { (World.run ({ session with phase := .staging }.vet engine edits) world).2 with
          journal }) := by
  unfold validate
  rw [if_neg live, World.run_bind]
  generalize World.run ({ session with phase := .staging }.vet engine edits) world = vetted
  obtain ⟨⟨answer, vetted⟩, later⟩ := vetted
  cases answer <;> exact ⟨_, rfl⟩

/-- A batch that is accepted was prepared and its groups were laid over the document of the session; what
was staged with it is staged from then on. -/
theorem exists_steps_of_accepted {engine : Engine} {session : Session} {edits : List Edit} {world : World}
    (accepted : (World.run (session.validate engine edits) world).1.1.isOk) :
    ∃ staged groups document middle last journal,
      (prepare engine session.staged edits).outcome world = (.ok (staged, groups), middle) ∧
      World.run (Group.commitAll engine.setting groups session.document) middle =
        ((.ok (), document), last) ∧
      World.run (session.validate engine edits) world =
        ((.ok (), { session with phase := .staging, staged, document := document.compactIfSparse }),
          { last with journal }) := by
  by_cases closed : session.phase = .closed
  · unfold validate at accepted
    rw [if_pos closed] at accepted
    cases accepted
  · obtain ⟨journal, same⟩ := run_validate engine closed edits world
    rw [same, run_vet] at accepted ⊢
    rcases prepared : (prepare engine session.staged edits).outcome world with ⟨answer, middle⟩
    rw [prepared] at accepted
    cases answer with
    | error rejection => cases accepted
    | ok answer =>
        obtain ⟨staged, groups⟩ := answer
        rcases laid : World.run (Group.commitAll engine.setting groups session.document) middle with
          ⟨⟨answer, document⟩, last⟩
        simp only [laid] at accepted ⊢
        cases answer with
        | error rejection => cases accepted
        | ok _ => exact ⟨staged, groups, document, middle, last, journal, rfl, laid, rfl⟩

/-- A rejected batch leaves the session as it was but for its phase, and the world but for what
reading does to it: nothing is folded into a cached table. -/
theorem validate_rejected [PatternReader] {engine : Engine} {modules : List ModuleDecl} {delimiter : String}
    (built : Schema.build modules delimiter = .ok engine.setting.schema) {session : Session}
    (live : session.phase ≠ .closed) {edits : List Edit}
    (patchable : CanPatch engine.setting.schema edits) (world : World)
    (rejected : (World.run (session.validate engine edits) world).1.1.isOk = false) :
    (World.run (session.validate engine edits) world).1.2 = { session with phase := .staging } ∧
      world.OnlyRead engine.setting (World.run (session.validate engine edits) world).2 := by
  obtain ⟨journal, same⟩ := run_validate engine live edits world
  rw [same] at rejected ⊢
  have vetted := vet_rejected (Schema.isSound_of_build built) { session with phase := .staging }
    patchable world (by
      intro accepted
      simp only [accepted] at rejected
      cases rejected)
  exact ⟨vetted.1, vetted.2.trans (World.OnlyRead.of_eq rfl rfl rfl rfl rfl)⟩

/-- A table of rows with a field, whose delimiter overlaps itself between a repeating component and a
single one. -/
def overlappingTable : TableDecl :=
  { name := "T", keyPattern := "T||(\x7ba\x7d,)*||\x7bb\x7d", keyDelimiter := some "||"
    leaves := [{ name := "f" }] }

/-- A batch that creates a row and takes its field away again. The key of one of the list instances
of the row is no row key. -/
def createAndStrip : List Edit :=
  [{ operation := .create, key := "T|||,b||y", fields := (∅ : Fields).insert "f" "1" },
    { operation := .delete, key := "T|||,b||y", fields := (∅ : Fields).insert "f" "" }]

/-- A rejected batch can leave what it created in the document of its session. -/
theorem validate_rejected_leaves_trace :
    let engine := Engine.ofModules [{ name := "m", tables := [overlappingTable] }]
    let outcome := World.run (validate engine { id := "s" } createAndStrip)
      { store := { database := 0 } }
    (Schema.build [{ name := "m", tables := [overlappingTable] }] Schema.usualDelimiter).isOk ∧
      outcome.1.1.isOk = false ∧ outcome.1.2.document.isEmpty = false := by
  decide +kernel

/-- A table of rows with a field. -/
def plainTable : TableDecl :=
  { name := "PORT", keyPattern := "PORT|\x7bname\x7d", leaves := [{ name := "mtu" }] }

/-- A batch that changes a row and then creates it is rejected as a whole. -/
theorem validate_rejected_of_existing_row :
    let engine := Engine.ofModules [{ name := "m", tables := [plainTable] }]
    let edits : List Edit := [
      { operation := .update, key := "PORT|x", fields := (∅ : Fields).insert "mtu" "9100" },
      { operation := .create, key := "PORT|x" }]
    let world : World :=
      { store := { database := 0, rows := (∅ : ByName Fields).insert "PORT|x" ∅ } }
    let outcome := World.run (validate engine { id := "s" } edits) world
    outcome.1.2 = { id := "s", phase := .staging } ∧ world.OnlyRead engine.setting outcome.2 := by
  have faultless :
      (Schema.build [{ name := "m", tables := [plainTable] }] Schema.usualDelimiter).isOk := by
    decide +kernel
  exact validate_rejected (Schema.build_eq_ofModules faultless) (by decide) (by decide +kernel) _
    (by decide +kernel)

end Session

end ConfigVetting
