import ConfigVetting.Engine
import ConfigVetting.Proofs.Session.Dependencies

/-! # The data that a check needs

A subject is held against the data that is resolved for it. Of this data only the values matter that the
leafrefs of the subject lead to (`ConfigVetting.Dependency.accepts_of_referencesHold`), and the rows that
say one of them are needed (`ConfigVetting.Dependency.isNeeded_of_says`). So all rows that the session sees
would lead to the same answer, unless a value stands in an entry, where the rows that it leads to are not
asked for (`ConfigVetting.Dependency.accepts_iff_accepts_allSeenRows`).
-/

namespace ConfigVetting

namespace Dependency

open WorldM

/-! ## All rows -/

/-- The rows of a table that a session sees. -/
def seenRows (staged : StagedEdits) (stored : ByName Fields) (table : TableSchema) : KeyedRows :=
  let states := statesOf staged table.name
  let keys := (Store.tableRows table stored).keys.foldl (fun keys rowKey => keys.insert rowKey) ∅
  rowsAfter states ((keysToFetch keys states).map fun rowKey =>
    (rowKey, stored[table.storeKey rowKey]?))

/-- The rows of all tables that a session sees. -/
def allSeenRows (schema : Schema) (staged : StagedEdits) (stored : ByName Fields) : TableRows :=
  schema.tables.toList.foldl (fun rows (name, table) => rows.insert name (seenRows staged stored table)) ∅

variable {schema : Schema} {table : TableSchema} {staged : StagedEdits} {stored : ByName Fields}

private theorem getElem?_seenRows (rowKey : String) :
    (seenRows staged stored table)[rowKey]? = staged.view stored table rowKey := by
  unfold seenRows
  simp only
  rw [getElem?_rowsAfter _ _ fun rowKey => stored[table.storeKey rowKey]?, getElem?_statesOf]
  unfold StagedEdits.view StagedEdits.rowAfter
  cases staged.state? table.name rowKey with
  | some state => rfl
  | none =>
      refine ite_eq_left_iff.mpr fun unlisted => Eq.symm ?_
      rw [← Store.getElem?_tableRows]
      refine Std.ExtTreeMap.getElem?_eq_none fun there => unlisted ?_
      exact Names.mem_foldl_insert.mpr (Or.inl (by simpa using there))

private theorem getElem?_allSeenRows (known : schema.table? table.name = some table) (rowKey : String) :
    ((allSeenRows schema staged stored).keyed table.name)[rowKey]? =
      staged.view stored table rowKey := by
  have found : (allSeenRows schema staged stored)[table.name]? = some (seenRows staged stored table) := by
    have inserted := @ByName.getElem?_foldl_insert _ _ Prod.fst
      (fun entry : String × TableSchema => seenRows staged stored entry.2) _
      schema.tables.nodup_toList ∅ table.name
    refine inserted.trans ?_
    rw [schema.tables.find?_toList, show schema.tables[table.name]? = some table from known]
    rfl
  rw [TableRows.keyed, found, Option.getD_some, getElem?_seenRows]

/-! ## Subjects -/

section Subjects

variable {subject dependent : Document} {rows : TableRows} {operation : Operation}

/-- All that stands in the containers of a table in the document of rows is found as list instances. -/
theorem bare_mem_listInstances (sound : schema.IsSound)
    (translated : Document.ofRows schema rows = .ok subject)
    (known : schema.table? table.name = some table) {container : Node Nat}
    (below : container ∈ subject.roots.flatMap Node.children) (named : container.name = table.name)
    {node : Node Nat} (inside : node ∈ container.children) :
    node.bare ∈ subject.trees.listInstances table.name := by
  obtain ⟨placed, gathers⟩ := Document.gathers_ofRows sound translated
  have listed : node.bare ∈ subject.trees.instancesIn table.name :=
    placed.mem_instancesIn_bare_iff.mpr ⟨container, below, named, node, inside, rfl⟩
  rw [placed.listInstances_eq known]
  refine List.mem_filter.mpr ⟨listed, ?_⟩
  obtain ⟨_, _, _, _, _, _, _, _, same⟩ := (gathers.mem_instancesIn known).mp listed
  rw [same]
  rfl

/-- Whether all values that a subject gives its leafrefs stand in the subject or in the data that it depends
on. -/
def ReferencesHold (schema : Schema) (subject dependent : Document) : Prop :=
  ∀ table field decl value, HasTable schema subject.roots table → table.leaf? field = some decl →
    decl.targets ≠ [] → Gives subject.roots table field value →
      ∃ target ∈ decl.targets, subject.roots.containsValue target.table target.leaf value = true ∨
        dependent.roots.containsValue target.table target.leaf value = true

/-- The leafrefs of a subject that is accepted hold. -/
theorem referencesHold_of_accepts (acts : operation = .create ∨ operation = .update)
    (accepted : Processor.ofSchema schema subject (some dependent) operation = .ok ()) :
    ReferencesHold schema subject dependent := by
  rintro table field decl value ⟨known, _⟩ declared refers ⟨filled, node, inside, given⟩
  obtain ⟨root, top, container, below, isTable, member⟩ := Forest.exists_container_of_mem inside
  rw [Node.isTable, Bool.and_eq_true, decide_eq_true_iff, decide_eq_true_iff] at isTable
  exact Schema.containsValue_of_check acts accepted known (List.mem_flatMap.mpr ⟨root, top, below⟩)
    isTable.2 member declared refers filled given

/-- A subject that is accepted with some data is accepted with other data in which its leafrefs hold. -/
theorem accepts_of_referencesHold (sound : schema.IsSound)
    (translated : Document.ofRows schema rows = .ok subject)
    (accepted : Processor.ofSchema schema subject (some dependent) operation = .ok ())
    {other : Document} (hold : ReferencesHold schema subject other) :
    Processor.ofSchema schema subject (some other) operation = .ok () := by
  refine Schema.check_of_holds accepted ?_ sound
  intro table known container below named node inside field decl value declared refers filled given
  have listed := bare_mem_listInstances sound translated known below named inside
  rw [Document.trees, Forest.listInstances_bare] at listed
  obtain ⟨own, member, same⟩ := List.mem_map.mp listed
  have givenOwn : table.Gives own field value := by
    rw [← TableSchema.gives_bare, same, TableSchema.gives_bare]
    exact given
  have holds := hold table field decl value ⟨known, container, below, named⟩ declared refers
    ⟨filled, own, member, givenOwn⟩
  simpa [Check.holdsIn] using holds

end Subjects

/-! ## What is needed -/

section Needed

variable {σ : Type} {subject : Forest σ} {gives : TableSchema → String → String → Prop}
  {rowKey name leaf value : String} {fields : Fields}

/-- A row says in the only, single-valued key of its table its own key. -/
theorem eq_rowKey_of_says (single : isSingleKey table leaf = true)
    (said : table.Says rowKey fields leaf value) : value = rowKey := by
  have segments : table.segments = [⟨leaf, false⟩] := of_decide_eq_true single
  have named : table.segments ≠ [] := by simp [segments]
  have isKey : table.isKey leaf = true := by simp [TableSchema.isKey, TableSchema.keyNames, segments]
  obtain ⟨combinations, expanded, components, chosen, held⟩ := said.keyHolds isKey
  obtain ⟨same, label⟩ := (isSingle_of_isSingleKey single).instanceNode_eq named expanded chosen ∅
  rw [← same] at label
  have joined : table.instanceKey components = rowKey := Option.some.inj (congrArg Label.key label)
  obtain ⟨_, _, own⟩ := TableSchema.isChosen_of_expandKey named expanded chosen
  have count : components.length = 1 := by rw [own.length_eq, segments]; rfl
  obtain ⟨component, rfl⟩ := List.length_eq_one_iff.mp count
  have component_eq : value = component := by
    simpa [TableSchema.keyNames, segments] using held
  rw [component_eq, ← joined]
  simp [TableSchema.instanceKey, Text.joinWith]

/-- A row that says what a subject refers to is needed. -/
theorem isNeeded_of_says (sound : schema.IsSound) (known : schema.table? name = some table)
    (refers : Refers schema subject gives name leaf value)
    (said : table.Says rowKey fields leaf value) : IsNeeded schema subject gives table rowKey := by
  cases (sound name table known).1
  by_cases single : isSingleKey table leaf = true
  · cases eq_rowKey_of_says single said
    exact Or.inr ⟨table, leaf, known, refers, single⟩
  · exact Or.inl (.first (Or.inr ⟨table, leaf, value, known, refers, by simpa using single⟩))

/-- Whether the list instances of a table in a subject have a value that is not empty in the value leaf of
an entry. -/
def GivesInEntry (subject : Forest σ) (table : TableSchema) (field value : String) : Prop :=
  value ≠ "" ∧ ∃ node ∈ subject.listInstances table.name, ∃ nameLeaf,
    table.mapLeaves = some (nameLeaf, field) ∧
      ∃ entry ∈ node.children, entry.kind = .list ∧ value ∈ entry.leafValues field

private theorem gives_iff {field : String} : Gives subject table field value ↔
    GivesPlainly subject table field value ∨ GivesInEntry subject table field value := by
  unfold Gives GivesPlainly GivesInEntry TableSchema.Gives
  simp only [and_or_left, exists_or]

/-- Whether all values that a subject gives its leafrefs in entries stand in the subject, or in rows that
are there and needed by the values directly below its list instances. -/
def EntriesHold (schema : Schema) (view : TableSchema → String → Option Fields) (subject : Forest σ) :
    Prop :=
  ∀ table field decl value, HasTable schema subject table → table.leaf? field = some decl →
    decl.targets ≠ [] → GivesInEntry subject table field value →
      ∃ target ∈ decl.targets, subject.containsValue target.table target.leaf value = true ∨
        ∃ found rowKey fields, schema.table? target.table = some found ∧
          IsNeeded schema subject (GivesPlainly subject) found rowKey ∧
          view found rowKey = some fields ∧ found.Says rowKey fields target.leaf value

end Needed

variable {source : Source} {name leaf value : String}

/-- What is resolved for a subject contains what rows say that it needs by the values directly below its
list instances. -/
theorem containsValue_ofSubject_iff {σ : Type} {subject : Forest σ} {dependent : Document}
    {world later : World} (sound : source.setting.schema.IsSound) (uncached : source.useCache = false)
    (resolved : (ofSubject source subject).outcome world = (.ok dependent, later)) :
    dependent.roots.containsValue name leaf value = true ↔
      ∃ table rowKey fields, source.setting.schema.table? name = some table ∧
        IsNeeded source.setting.schema subject (GivesPlainly subject) table rowKey ∧
        source.staged.view world.store.rows table rowKey = some fields ∧
        table.Says rowKey fields leaf value := by
  obtain ⟨_, _, placed, gathers⟩ := gathers_of_ofSubject sound uncached resolved
  exact gathers.containsValue_iff sound placed

/-- The document of all rows that a session sees contains what they say. -/
theorem containsValue_allSeenRows_iff (sound : schema.IsSound) {everything : Document}
    (translated : Document.ofRows schema (allSeenRows schema staged stored) = .ok everything) :
    everything.roots.containsValue name leaf value = true ↔
      ∃ table rowKey fields, schema.table? name = some table ∧
        staged.view stored table rowKey = some fields ∧ table.Says rowKey fields leaf value := by
  obtain ⟨placed, gathers⟩ := Document.gathers_ofRows sound translated
  have plain : (fun (_ : TableSchema) (node : Tree) => node) = fun _ => TableSchema.rejoined ∅ :=
    funext fun _ => funext fun node => (TableSchema.rejoined_empty node).symm
  rw [plain] at gathers
  rw [gathers.containsValue_iff sound placed]
  refine exists_congr fun table => exists_congr fun rowKey => exists_congr fun fields =>
    and_congr_right fun known => ?_
  cases (sound name table known).1
  rw [true_and, getElem?_allSeenRows known]

/-- **The data that is resolved for a subject is enough**, but for its entries. Without the cache, a subject
of rows that is created or updated is accepted with what is resolved for it exactly if it is accepted with
all rows that the session sees and all values of leafrefs in its entries stand in the subject, or in rows
that it needs by other values. -/
theorem accepts_iff_accepts_allSeenRows [PatternReader] {modules : List ModuleDecl} {delimiter : String}
    (built : Schema.build modules delimiter = .ok source.setting.schema)
    (uncached : source.useCache = false) {rows : TableRows} {subject dependent everything : Document}
    (translated : Document.ofRows source.setting.schema rows = .ok subject) {world later : World}
    (resolved : (ofSubject source subject.roots).outcome world = (.ok dependent, later))
    (translatedAll : Document.ofRows source.setting.schema
      (allSeenRows source.setting.schema source.staged world.store.rows) = .ok everything)
    {operation : Operation} (acts : operation = .create ∨ operation = .update) :
    let accepts := Processor.ofSchema source.setting.schema subject
    accepts (some dependent) operation = .ok () ↔ accepts (some everything) operation = .ok () ∧
      EntriesHold source.setting.schema (source.staged.view world.store.rows) subject.roots := by
  intro accepts
  have sound : source.setting.schema.IsSound := Schema.isSound_of_build built
  have inResolved : ∀ {name leaf value}, dependent.roots.containsValue name leaf value = true ↔ _ :=
    containsValue_ofSubject_iff sound uncached resolved
  have inAll : ∀ {name leaf value}, everything.roots.containsValue name leaf value = true ↔ _ :=
    containsValue_allSeenRows_iff sound translatedAll
  constructor
  · intro accepted
    have hold := referencesHold_of_accepts acts accepted
    refine ⟨accepts_of_referencesHold sound translated accepted ?_, ?_⟩
    · intro table field decl value held declared refers given
      obtain ⟨target, listed, stands⟩ := hold table field decl value held declared refers given
      refine ⟨target, listed, stands.imp_right fun inside => inAll.mpr ?_⟩
      obtain ⟨found, rowKey, fields, known, _, seen, said⟩ := inResolved.mp inside
      exact ⟨found, rowKey, fields, known, seen, said⟩
    · intro table field decl value held declared refers given
      obtain ⟨target, listed, stands⟩ :=
        hold table field decl value held declared refers (gives_iff.mpr (Or.inr given))
      exact ⟨target, listed, stands.imp_right inResolved.mp⟩
  · rintro ⟨accepted, entries⟩
    have hold := referencesHold_of_accepts acts accepted
    refine accepts_of_referencesHold sound translated accepted ?_
    intro table field decl value held declared refers given
    rcases gives_iff.mp given with plainly | inEntry
    · obtain ⟨target, listed, stands⟩ := hold table field decl value held declared refers given
      refine ⟨target, listed, stands.imp_right fun inside => inResolved.mpr ?_⟩
      obtain ⟨found, rowKey, fields, known, seen, said⟩ := inAll.mp inside
      refine ⟨found, rowKey, fields, known, isNeeded_of_says sound known ?_ said, seen, said⟩
      exact ⟨table, field, decl, held, declared, plainly, listed⟩
    · obtain ⟨target, listed, stands⟩ := entries table field decl value held declared refers inEntry
      exact ⟨target, listed, stands.imp_right inResolved.mpr⟩

/-- Where no table has entries, nothing is asked of them. -/
theorem entriesHold_of_noEntries {σ : Type} (none : ∀ table, schema.table? table.name = some table →
    table.mapLeaves = none) (view : TableSchema → String → Option Fields) (subject : Forest σ) :
    EntriesHold schema view subject := by
  rintro table field decl value ⟨known, _⟩ _ _ ⟨_, _, _, _, mapped, _⟩
  rw [none table known] at mapped
  cases mapped

/-- A map that refers to a class by a leaf is accepted with what is resolved for it. -/
theorem accepts_classSubject :
    let source := classSource none
    let schema := source.setting.schema
    let subject := classSubject none "class" "x"
    ∃ dependent later everything,
      (ofSubject source subject.roots).outcome classWorld = (.ok dependent, later) ∧
      Document.ofRows schema (allSeenRows schema source.staged classWorld.store.rows) =
        .ok everything ∧
      Processor.ofSchema schema subject (some dependent) .create = .ok () := by
  intro source schema subject
  have built := Schema.build_eq_ofModules
    (show (Schema.build (classModules none) Schema.usualDelimiter).isOk by decide +kernel)
  have entries : ∀ entry ∈ source.setting.schema.tables.toList, entry.2.mapLeaves = none := by
    decide +kernel
  have accepts : (Document.ofRows schema (allSeenRows schema source.staged
      classWorld.store.rows)).toOption.any fun everything =>
        (Processor.ofSchema schema subject (some everything) .create).isOk := by
    decide +kernel
  obtain ⟨dependent, later, resolved⟩ := exists_outcome_of_isOk
    (show ((ofSubject source subject.roots).outcome classWorld).1.isOk by decide +kernel)
  obtain ⟨everything, translatedAll, accepted⟩ := (Option.any_eq_true _ _).mp accepts
  rw [Except.toOption_eq_some_iff] at translatedAll
  obtain ⟨_, accepted⟩ := Except.exists_of_isOk accepted
  refine ⟨dependent, later, everything, resolved, translatedAll, ?_⟩
  refine (accepts_iff_accepts_allSeenRows built rfl (ofRow_classSubject (by decide +kernel)) resolved
    translatedAll (.inl rfl)).mpr ⟨accepted, entriesHold_of_noEntries ?_ _ _⟩
  exact fun table known => entries _ (Std.ExtTreeMap.mem_toList_iff_getElem?_eq_some.mpr known)

/-- A map that refers to a class in an entry is accepted with all rows, but not with what is resolved for
it. -/
theorem not_accepts_classSubject :
    let source := classSource (some ["code", "class"])
    let schema := source.setting.schema
    let subject := classSubject (some ["code", "class"]) "1" "x"
    (∃ modules delimiter, Schema.build modules delimiter = .ok schema) ∧
      Document.ofRow schema "MAP" "p" ((∅ : Fields).insert "1" "x") = .ok subject ∧
      ∃ dependent later everything,
        (ofSubject source subject.roots).outcome classWorld = (.ok dependent, later) ∧
        Document.ofRows schema (allSeenRows schema source.staged classWorld.store.rows) =
          .ok everything ∧
        Processor.ofSchema schema subject (some everything) .create = .ok () ∧
        Processor.ofSchema schema subject (some dependent) .create ≠ .ok () := by
  intro source schema subject
  have built := Schema.build_eq_ofModules
    (show (Schema.build (classModules (some ["code", "class"])) Schema.usualDelimiter).isOk by
      decide +kernel)
  have accepts : (Document.ofRows schema (allSeenRows schema source.staged
      classWorld.store.rows)).toOption.any fun everything =>
        (Processor.ofSchema schema subject (some everything) .create).isOk := by
    decide +kernel
  have rejects : ((ofSubject source subject.roots).outcome classWorld).1.toOption.any fun dependent =>
      !(Processor.ofSchema schema subject (some dependent) .create).isOk := by
    decide +kernel
  obtain ⟨everything, translatedAll, accepted⟩ := (Option.any_eq_true _ _).mp accepts
  obtain ⟨dependent, answered, rejected⟩ := (Option.any_eq_true _ _).mp rejects
  rw [Except.toOption_eq_some_iff] at translatedAll
  obtain ⟨later, resolved⟩ := exists_outcome_of_toOption answered
  obtain ⟨_, accepted⟩ := Except.exists_of_isOk accepted
  refine ⟨⟨_, _, built⟩, ofRow_classSubject (by decide +kernel), dependent, later, everything, resolved,
    translatedAll, accepted, fun same => ?_⟩
  rw [same] at rejected
  cases rejected

end Dependency

end ConfigVetting
