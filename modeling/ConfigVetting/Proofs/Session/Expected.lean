import ConfigVetting.Proofs.Document.Valid
import ConfigVetting.Proofs.Session.Rejected

/-! # Data of an unexpected shape

What a batch of edits becomes on its way to the processor has the shape that the checks take for granted:
every container is that of a known table, the list instances hold entries, leaves and members of leaf-lists
only, and a fetch answers for every row key it was asked for. So the rejections that guard against anything
else are never given while a batch is vetted (`ConfigVetting.Session.validate_meetsExpected`).
-/

namespace ConfigVetting

open Stateful WorldM

/-- Whether the tables of a subject are known, and its list instances hold entries, leaves and members of
leaf-lists only. -/
def Schema.Handles {σ : Type} (schema : Schema) (subject : Forest σ) : Prop :=
  ∀ container ∈ subject.flatMap Node.children, (schema.table? container.name).isSome ∧
    ∀ node ∈ container.children, ∀ child ∈ node.children,
      child.kind = .list ∨ child.kind = .leaf ∨ child.kind = .leafList

/-- A subject of rows is handled by its schema. -/
theorem Document.handles_ofRows {schema : Schema} (sound : schema.IsSound) {rows : TableRows}
    {subject : Document} (translated : ofRows schema rows = .ok subject) :
    schema.Handles subject.roots := by
  intro container below
  obtain ⟨table, found, instances⟩ := exists_table_of_container sound translated below
  refine ⟨by rw [found]; rfl, fun node inside child member => ?_⟩
  obtain ⟨fields, components, _, same⟩ := instances node inside
  have own : child.bare ∈ (table.instanceNode fields components).children := by
    rw [← same, Node.children_bare]
    exact List.mem_map_of_mem member
  rw [← child.kind_bare]
  exact TableSchema.kind_of_mem_instanceNode own

/-! ## Checks -/

namespace Check

variable {σ : Type}

private theorem Place.meetsExpected_addValues (place : Place) (values : Values) {child : Node σ}
    (kinds : child.kind = .list ∨ child.kind = .leaf ∨ child.kind = .leafList) :
    MeetsExpected (place.addValues values child) := by
  rcases kinds with isEntry | isLeaf
  · obtain ⟨later, added⟩ : ∃ later, place.addValues values child = .ok later :=
      exists_addValues_of_entry isEntry
    rw [added]
    exact .ok later
  · unfold addValues
    rcases isLeaf with kind | kind
    all_goals
      simp only [kind]
      split
      · exact .error nofun
      · split
        · exact .error nofun
        · exact .ok _

/-- A list instance of entries, leaves and members of leaf-lists is never of an unexpected shape. -/
theorem Place.meetsExpected_check (place : Place) (holds : LeafrefTarget → String → Bool)
    (operation : Operation) {node : Node σ}
    (kinds : ∀ child ∈ node.children, child.kind = .list ∨ child.kind = .leaf ∨ child.kind = .leafList) :
    MeetsExpected (place.check holds operation node) := by
  refine check_failsOnly holds operation ?_ fun _ judges same => absurd (same ▸ judges) (by decide)
  exact .foldlM (fun values child inside => meetsExpected_addValues place values (kinds child inside)) ∅

end Check

/-- A subject that the schema handles is never of an unexpected shape. -/
theorem Schema.meetsExpected_check {σ τ : Type} {schema : Schema} {subject : Forest σ}
    (handles : schema.Handles subject) (dependent : Option (Forest τ)) (operation : Operation) :
    MeetsExpected (schema.check subject dependent operation) := by
  unfold Schema.check
  split
  · exact .ok ()
  · refine .forM fun container below => ?_
    obtain ⟨known, kinds⟩ := handles container below
    obtain ⟨table, found⟩ := Option.isSome_iff_exists.mp known
    unfold Check.checkContainer
    simp only [found]
    exact .forM fun node inside => Check.Place.meetsExpected_check _ _ operation (kinds node inside)

/-! ## What the processor is asked -/

/-- Whether a world only differs from an earlier one, in what the processor was asked, by subjects that the
schema handles. -/
def World.Consults (schema : Schema) (before after : World) : Prop :=
  ∃ asked, after.consultations = before.consultations ++ asked ∧
    ∀ consultation ∈ asked, schema.Handles consultation.subject.roots

namespace World.Consults

variable {schema : Schema} {before after : World}

/-- The processor was not asked anything. -/
theorem of_eq (same : after.consultations = before.consultations) : before.Consults schema after :=
  ⟨[], same.trans (List.append_nil _).symm, fun _ nothing => nomatch nothing⟩

instance : Std.Refl (World.Consults schema) := ⟨fun _ => of_eq rfl⟩

instance : IsTrans World (World.Consults schema) where
  trans _ _ _ := by
    rintro ⟨first, grown, firstHandled⟩ ⟨second, again, secondHandled⟩
    refine ⟨first ++ second, by rw [again, grown, List.append_assoc], fun consultation asked => ?_⟩
    exact (List.mem_append.mp asked).elim (firstHandled consultation) (secondHandled consultation)

end World.Consults

/-- Whether a call is never rejected for data of an unexpected shape, and only has subjects judged that the
schema handles. -/
abbrev WorldM.MeetsExpected {α : Type} (schema : Schema) (call : WorldM α) : Prop :=
  IsConfined Rejection.IsExpected (World.Consults schema) call

private theorem Schema.bounds (schema : Schema) : Bounds Rejection.IsExpected (World.Consults schema) where
  expected _ expected := expected
  counts _ _ := .of_eq rfl
  notes _ _ := .of_eq rfl

namespace Cache

variable (setting : Setting)

private theorem meetsExpected_read (name : String) : (read setting name).MeetsExpected setting.schema := by
  refine IsConfined.get.bind fun world _ => ?_
  cases registered : world.cache.entries[name]? with
  | none => exact .pure _
  | some entry =>
      simp only
      split
      · exact (IsConfined.state fun _ => .of_eq rfl).bind fun _ _ => .pure _
      · exact (IsConfined.state fun _ => .of_eq rfl).bind fun _ _ =>
          (setting.schema.bounds.note _ _).bind fun _ _ =>
            (setting.schema.bounds.build setting name).bind fun _ _ =>
              (IsConfined.state fun _ => .of_eq rfl).bind fun _ _ => .pure _

private theorem meetsExpected_changeDocument (schema : Schema) (name : String) {change : DocumentM Unit}
    (meets : change.MeetsExpected) : (changeDocument name change).MeetsExpected schema := by
  intro world
  change MeetsExpected ((changeDocument name change).outcome world).1 ∧
    world.Consults schema ((changeDocument name change).outcome world).2
  rw [outcome_changeDocument]
  cases world.cache.document? name with
  | none => exact ⟨.ok (), .of_eq rfl⟩
  | some document => exact ⟨(meets document).1, .of_eq rfl⟩

private theorem meetsExpected_fold (rows : TableRows) (operation : Operation) :
    (fold setting rows operation).MeetsExpected setting.schema := by
  refine .ite (fun _ => .pure _) fun _ => .forM fun (name, keyed) _ => IsConfined.get.bind fun world _ => ?_
  refine .ite (fun _ => .pure _) fun _ => ?_
  refine (setting.schema.bounds.except (setting.schema.meetsExpected_knownTable name)).bind fun table _ => ?_
  refine (meetsExpected_changeDocument setting.schema name ?_).bind fun _ _ => .state fun _ => .of_eq rfl
  refine IsConfined.bind (.forM fun row _ => ?_) fun _ _ => .modify fun _ => trivial
  exact Document.meetsExpected_overlayRow setting.schema table row.1 _

end Cache

private theorem Schema.readBounds (setting : Setting) :
    ReadBounds setting Rejection.IsExpected (World.Consults setting.schema) where
  toBounds := setting.schema.bounds
  reads := Cache.meetsExpected_read setting

/-! ## Batches -/

variable {engine : Engine}

/-- A subject of rows is judged as one that the schema handles. -/
theorem Engine.meetsExpected_judge (sound : engine.setting.schema.IsSound)
    (holds : engine.processor = .ofSchema engine.setting.schema) {rows : TableRows} {subject : Document}
    (translated : Document.ofRows engine.setting.schema rows = .ok subject) (dependent : Option Document)
    (operation : Operation) :
    (engine.judge subject dependent operation).MeetsExpected engine.setting.schema := by
  have handles := Document.handles_ofRows sound translated
  refine IsConfined.bind (.modify fun world => ⟨[_], rfl, fun consultation asked => ?_⟩) fun _ _ => .except ?_
  · rw [List.mem_singleton.mp asked]
    exact handles
  · rw [holds]
    exact Schema.meetsExpected_check handles _ operation

namespace Group

private theorem meetsExpected_layOver (schema : Schema) (group : Group) (document : Document) :
    MeetsExpected (group.layOver schema document).1 := by
  have deletes : (group.deleteFrom schema).MeetsExpected := by
    refine .forM fun (name, keyed) _ => ?_
    simp only
    split
    · exact .pure _
    · exact .forM fun row _ => Document.meetsExpected_overlayRow schema _ row.1 _
  unfold layOver
  split
  · exact (deletes document).1
  · exact .ok ()

private theorem meetsExpected_commit (setting : Setting) (group : Group) (document : Document)
    (world : World) :
    MeetsExpected (World.run (group.commit setting document) world).1.1 ∧
      world.Consults setting.schema (World.run (group.commit setting document) world).2 := by
  have laid := meetsExpected_layOver setting.schema group document
  unfold commit
  generalize group.layOver setting.schema document = outcome at laid
  obtain ⟨answer, later⟩ := outcome
  cases answer with
  | error rejection => exact ⟨laid, .of_eq rfl⟩
  | ok _ => exact Cache.meetsExpected_fold setting group.rows group.operation world

/-- Laying groups over a document and the cached tables is never rejected for data of an unexpected shape. -/
theorem meetsExpected_commitAll (setting : Setting) (groups : List Group) (document : Document)
    (world : World) : MeetsExpected (World.run (commitAll setting groups document) world).1.1 ∧
      world.Consults setting.schema (World.run (commitAll setting groups document) world).2 := by
  induction groups generalizing document world with
  | nil => exact ⟨.ok (), .of_eq rfl⟩
  | cons group groups ih =>
      obtain ⟨fails, consults⟩ := meetsExpected_commit setting group document world
      rw [commitAll, World.run_bind]
      generalize World.run (group.commit setting document) world = outcome at fails consults ⊢
      obtain ⟨⟨answer, laidOver⟩, later⟩ := outcome
      cases answer with
      | error rejection => exact ⟨fails, consults⟩
      | ok _ =>
          obtain ⟨failsRest, consultsRest⟩ := ih laidOver later
          exact ⟨failsRest, Trans.trans consults consultsRest⟩

end Group

namespace Session

private theorem meetsExpected_vet (sound : engine.setting.schema.IsSound)
    (holds : engine.processor = .ofSchema engine.setting.schema) (session : Session) (edits : List Edit)
    (world : World) : MeetsExpected (World.run (session.vet engine edits) world).1.1 ∧
      world.Consults engine.setting.schema (World.run (session.vet engine edits) world).2 := by
  obtain ⟨fails, consults⟩ := isConfined_prepare (Schema.readBounds engine.setting)
    (fun _ _ translated => Engine.meetsExpected_judge sound holds translated) session.staged edits world
  change MeetsExpected ((prepare engine session.staged edits).outcome world).1 at fails
  change world.Consults _ ((prepare engine session.staged edits).outcome world).2 at consults
  rw [run_vet]
  generalize (prepare engine session.staged edits).outcome world = prepared at fails consults ⊢
  obtain ⟨answer, later⟩ := prepared
  cases answer with
  | error rejection => exact ⟨fails.map fun _ => (), consults⟩
  | ok answer =>
      obtain ⟨staged, groups⟩ := answer
      obtain ⟨failsRest, consultsRest⟩ :=
        Group.meetsExpected_commitAll engine.setting groups session.document later
      simp only
      generalize World.run (Group.commitAll engine.setting groups session.document) later = committed
        at failsRest consultsRest ⊢
      obtain ⟨⟨answer, document⟩, last⟩ := committed
      cases answer with
      | error rejection => exact ⟨failsRest, Trans.trans consults consultsRest⟩
      | ok _ => exact ⟨.ok (), Trans.trans consults consultsRest⟩

/-- The text of the code for data of an unexpected shape is not that of any other one. -/
theorem text_ne_of_meetsExpected {outcome : Except Rejection Unit} (meets : MeetsExpected outcome) :
    (ReturnCode.of outcome).text ≠ "CVL_INTERNAL_UNKNOWN" := by
  have others : ∀ code : ReturnCode, code ≠ .internal → code.text ≠ "CVL_INTERNAL_UNKNOWN" := by
    intro code
    cases code <;> decide
  cases outcome with
  | ok _ => exact others .success nofun
  | error rejection => exact others rejection.code (meets rejection rfl)

/-- **No rejection for data of an unexpected shape.** A session that is not closed never answers a batch with
the code for it, if the schema was built and the processor holds subjects against it. Every subject that the
processor is asked about on the way has tables that the schema knows, and list instances of entries, leaves
and members of leaf-lists only. A fetch in the batches of the engine leaves no row key unresolved. -/
theorem validate_meetsExpected [PatternReader] {modules : List ModuleDecl} {delimiter : String}
    (built : Schema.build modules delimiter = .ok engine.setting.schema)
    (holds : engine.processor = .ofSchema engine.setting.schema) {session : Session}
    (live : session.phase ≠ .closed) (edits : List Edit) (world : World) :
    (ReturnCode.of (World.run (session.validate engine edits) world).1.1).text ≠ "CVL_INTERNAL_UNKNOWN" ∧
    (∃ asked, (World.run (session.validate engine edits) world).2.consultations =
        world.consultations ++ asked ∧
      ∀ consultation ∈ asked, engine.setting.schema.Handles consultation.subject.roots) ∧
    ∀ (table : TableSchema) (wanted : List String) (fetched : List (Option Fields)) (before after : World),
      (World.askStore (Store.fetch (wanted.map table.storeKey) engine.setting.batchSize)).outcome before =
        (.ok fetched, after) → Dependency.resolve table wanted fetched = .ok (wanted.zip fetched) := by
  obtain ⟨fails, consults⟩ := meetsExpected_vet (Schema.isSound_of_build built) holds
    { session with phase := .staging } edits world
  obtain ⟨journal, same⟩ := run_validate engine live edits world
  rw [same]
  refine ⟨text_ne_of_meetsExpected fails, consults, fun table wanted fetched before after asked => ?_⟩
  exact Dependency.resolve_of_le (Nat.le_of_eq
    ((Dependency.length_of_gives_fetch ⟨before, after, asked⟩).trans (List.length_map _)).symm)

/-- A row that is there is created again in a batch with a new one: the rejection is for the former, after
nothing was judged. Alone, the new one is accepted, after one subject was judged that the schema handles. -/
theorem validate_createPort :
    let engine := Engine.ofModules [{ name := "m", tables := [plainTable] }]
    let world : World :=
      { store := { database := 0, rows := (∅ : ByName Fields).insert "PORT|x" ∅ } }
    let create (key : String) : Edit :=
      { operation := .create, key, fields := (∅ : Fields).insert "mtu" "9100" }
    let rejected := World.run (validate engine { id := "s" } [create "PORT|y", create "PORT|x"]) world
    let accepted := World.run (validate engine { id := "s" } [create "PORT|y"]) world
    rejected.1.1.isOk = false ∧ (ReturnCode.of rejected.1.1).text ≠ "CVL_INTERNAL_UNKNOWN" ∧
      accepted.1.1.isOk ∧ accepted.2.consultations.length = 1 ∧
      ∀ consultation ∈ accepted.2.consultations,
        engine.setting.schema.Handles consultation.subject.roots := by
  intro engine world create rejected accepted
  have built : Schema.build [{ name := "m", tables := [plainTable] }] Schema.usualDelimiter =
      .ok engine.setting.schema :=
    Schema.build_eq_ofModules (by decide +kernel)
  have live : ({ id := "s" } : Session).phase ≠ .closed := by decide
  obtain ⟨expected, _⟩ := validate_meetsExpected built rfl live [create "PORT|y", create "PORT|x"] world
  obtain ⟨_, ⟨asked, grown, handled⟩, _⟩ := validate_meetsExpected built rfl live [create "PORT|y"] world
  refine ⟨by decide +kernel, expected, by decide +kernel, by decide +kernel, fun consultation given => ?_⟩
  exact handled consultation ((grown.trans (List.nil_append asked)) ▸ given)

end Session

end ConfigVetting
