import ConfigVetting.Proofs.Document.Accepted
import ConfigVetting.Proofs.Session.Loading

/-! # What a subject wants

Each table of a subject asks for other tables, or for some of their rows, and all that is asked for is
wanted (`ConfigVetting.Dependency.exists_asks`). A table is wanted whole if a must rule names it, or if a
leafref with a value leads to a leaf of it that is not its only key. Otherwise the values of the leafrefs
that lead to it are the keys of the rows that are wanted (`ConfigVetting.Dependency.wants_spec`).
-/

namespace ConfigVetting

namespace Dependency

variable {schema : Schema} {wants : Wants} {table : TableSchema} {name : String}

/-- A table wants those that it requires, as a whole, and no other. -/
theorem getElem?_wantsOfTable (schema : Schema) (table name : String) :
    (wantsOfTable schema table)[name]? =
      if name ∈ schema.requiredTables table then some .whole else none := by
  rw [wantsOfTable, getElem?_wantWhole]
  simp only [Std.ExtTreeSet.mem_toList]
  rfl

/-- Whether the list instances of a table in a subject have a value in a leaf directly below one of
them. -/
def GivesPlainly {σ : Type} (subject : Forest σ) (table : TableSchema) (field value : String) : Prop :=
  value ≠ "" ∧ ∃ node ∈ subject.listInstances table.name, value ∈ node.leafValues field

private theorem mem_valuesIn_iff {σ : Type} {subject : Forest σ} {field value : String} :
    value ∈ valuesIn subject table.name field ↔ GivesPlainly subject table field value := by
  have each : ∀ (texts : List String) (values : Names),
      value ∈ texts.foldl (fun values text => if text.isEmpty then values else values.insert text) values ↔
        value ≠ "" ∧ value ∈ texts ∨ value ∈ values := by
    intro texts
    induction texts with
    | nil => simp
    | cons text texts ih =>
        intro values
        rw [List.foldl_cons, ih]
        by_cases blank : text.isEmpty
        · have empty : text = "" := String.isEmpty_iff.mp blank
          rw [if_pos blank, List.mem_cons, empty]
          exact or_congr_left (and_congr_right fun filled => (or_iff_right filled).symm)
        · rw [if_neg blank, Std.ExtTreeSet.mem_insert, Std.LawfulEqCmp.compare_eq_iff_eq, List.mem_cons]
          have filled : text ≠ "" := fun same => blank (String.isEmpty_iff.mpr same)
          constructor
          · rintro (⟨some, later⟩ | rfl | before)
            · exact Or.inl ⟨some, Or.inr later⟩
            · exact Or.inl ⟨filled, Or.inl rfl⟩
            · exact Or.inr before
          · rintro (⟨some, rfl | later⟩ | before)
            · exact Or.inr (Or.inl rfl)
            · exact Or.inl ⟨some, later⟩
            · exact Or.inr (Or.inr before)
  unfold valuesIn GivesPlainly
  rw [each, List.mem_flatMap]
  simp

/-- What is wanted for some values of a leaf. -/
def asksFor (schema : Schema) (targets : List LeafrefTarget) (values : Names) : List (String × Want) :=
  if values.isEmpty then []
  else targets.filterMap fun target => (schema.table? target.table).map fun found =>
    (target.table, if isSingleKey found target.leaf then .rows values else .whole)

private theorem wantTargets_eq (schema : Schema) (wants : Wants) (targets : List LeafrefTarget)
    (values : Names) :
    wantTargets schema wants targets values = wants.addAll (asksFor schema targets values) := by
  unfold wantTargets asksFor
  by_cases empty : values.isEmpty
  · rw [if_pos empty, if_pos empty]
    rfl
  · rw [if_neg empty, if_neg empty]
    induction targets generalizing wants with
    | nil => rfl
    | cons target targets ih =>
        rw [List.foldl_cons, ih, List.filterMap_cons]
        cases schema.table? target.table with
        | none => rfl
        | some found => rfl

/-- What a table of a subject adds to what is wanted. -/
def asksOf {σ : Type} (schema : Schema) (subject : Forest σ) (table : TableSchema) :
    List (String × Want) :=
  table.dependentTables.toList.map (fun name => (name, .whole)) ++
    table.leaves.toList.flatMap fun field =>
      asksFor schema field.2.targets (valuesIn subject table.name field.1)

/-- What is wanted after one more table of a subject. -/
def wantFor {σ : Type} (schema : Schema) (subject : Forest σ) (wants : Wants) (name : String) :
    Except Rejection Wants := do
  let table ← schema.knownTable name
  return table.leaves.toList.foldl (fun wants (field, leaf) =>
      wantTargets schema wants leaf.targets (valuesIn subject table.name field))
    (wantWhole wants table.dependentTables.toList)

private theorem wantFor_eq_ok_iff {σ : Type} {subject : Forest σ} {later : Wants} :
    wantFor schema subject wants name = .ok later ↔ ∃ table, schema.table? name = some table ∧
      later = wants.addAll (asksOf schema subject table) := by
  have same : ∀ table : TableSchema, table.leaves.toList.foldl (fun wants (field, leaf) =>
        wantTargets schema wants leaf.targets (valuesIn subject table.name field))
      (wantWhole wants table.dependentTables.toList) =
        wants.addAll (asksOf schema subject table) := by
    intro table
    unfold asksOf wantWhole Wants.addAll
    rw [List.foldl_append, List.foldl_map]
    generalize table.dependentTables.toList.foldl (fun wants name => wants.add name .whole) wants =
      wants
    induction table.leaves.toList generalizing wants with
    | nil => rfl
    | cons field fields ih =>
        rw [List.foldl_cons, ih, List.flatMap_cons, List.foldl_append]
        exact congrArg (List.foldl _ · _) (wantTargets_eq _ _ _ _)
  unfold wantFor
  rw [Except.bind_eq_ok_iff]
  simp only [Schema.knownTable_eq_ok_iff, same]
  refine exists_congr fun table => and_congr_right fun _ => ?_
  exact ⟨fun answered => (Except.ok.inj answered).symm, fun own => congrArg Except.ok own.symm⟩

/-- What is wanted after some tables of a subject is what each of them adds. -/
theorem exists_asks_of_foldlM {σ : Type} {subject : Forest σ} {names : List String} {later : Wants}
    (accepted : names.foldlM (wantFor schema subject) wants = .ok later) :
    ∃ asks, later = wants.addAll asks ∧ (∀ name ∈ names, (schema.table? name).isSome) ∧
      ∀ ask, ask ∈ asks ↔ ∃ name ∈ names, ∃ table, schema.table? name = some table ∧
        ask ∈ asksOf schema subject table := by
  induction names generalizing wants with
  | nil =>
      cases accepted
      exact ⟨[], rfl, by simp, by simp⟩
  | cons name names ih =>
      rw [List.foldlM_cons] at accepted
      obtain ⟨middle, stepped, rest⟩ := Except.bind_eq_ok_iff.mp accepted
      obtain ⟨table, known, rfl⟩ := wantFor_eq_ok_iff.mp stepped
      obtain ⟨asks, rfl, allKnown, members⟩ := ih rest
      refine ⟨asksOf schema subject table ++ asks, ?_, ?_, fun ask => ?_⟩
      · exact List.foldl_append.symm
      · exact List.forall_mem_cons.mpr ⟨Option.isSome_iff_exists.mpr ⟨table, known⟩, allKnown⟩
      · rw [List.mem_append, members, List.exists_mem_cons_iff, known]
        simp only [Option.some.injEq, exists_eq_left']

/-- Whether a subject holds a table of a schema. -/
def HasTable {σ : Type} (schema : Schema) (subject : Forest σ) (table : TableSchema) : Prop :=
  schema.table? table.name = some table ∧
    ∃ container ∈ subject.flatMap Node.children, container.name = table.name

/-- What a subject wants is what each of its tables adds. -/
theorem exists_asks {σ : Type} {subject : Forest σ} (sound : schema.IsSound)
    (accepted : wantsOfSubject schema subject = .ok wants) :
    ∃ asks, wants = (∅ : Wants).addAll asks ∧
      ∀ ask, ask ∈ asks ↔ ∃ table, HasTable schema subject table ∧ ask ∈ asksOf schema subject table := by
  have folded : (subjectTables subject).toList.foldlM (wantFor schema subject) ∅ = .ok wants := accepted
  obtain ⟨asks, same, known, members⟩ := exists_asks_of_foldlM folded
  refine ⟨asks, same, fun ask => (members ask).trans ?_⟩
  have named : ∀ name : String, name ∈ (subjectTables subject).toList ↔
      ∃ container ∈ subject.flatMap Node.children, container.name = name := by
    intro name
    rw [Std.ExtTreeSet.mem_toList, subjectTables, Names.mem_foldl_insert, List.mem_map]
    simp
  constructor
  · rintro ⟨name, member, table, known, asked⟩
    have own := (sound name table known).1
    exact ⟨table, ⟨own ▸ known, own ▸ (named name).mp member⟩, asked⟩
  · rintro ⟨table, ⟨known, member⟩, asked⟩
    exact ⟨table.name, (named _).mpr member, table, known, asked⟩

private theorem isEmpty_valuesIn_iff {σ : Type} {subject : Forest σ} {field : String} :
    (valuesIn subject table.name field).isEmpty = true ↔
      ¬∃ value, GivesPlainly subject table field value := by
  rw [Std.ExtTreeSet.isEmpty_iff, Std.ExtTreeSet.eq_empty_iff_forall_not_mem, not_exists]
  simp only [mem_valuesIn_iff]

/-- What a table of a subject asks for: the tables that its must rules name, and the targets of the
leafrefs that it gives a value. -/
theorem mem_asksOf_iff {σ : Type} {subject : Forest σ} {want : Want} :
    (name, want) ∈ asksOf schema subject table ↔
      name ∈ table.dependentTables ∧ want = .whole ∨
      ∃ field leaf, table.leaf? field = some leaf ∧
        (∃ value, GivesPlainly subject table field value) ∧ ∃ target ∈ leaf.targets,
          target.table = name ∧ ∃ found, schema.table? name = some found ∧
            want = if isSingleKey found target.leaf then .rows (valuesIn subject table.name field)
              else .whole := by
  unfold asksOf asksFor
  rw [List.mem_append, List.mem_map, List.mem_flatMap]
  refine or_congr ?_ ?_
  · simp [Std.ExtTreeSet.mem_toList, eq_comm]
  · constructor
    · rintro ⟨⟨field, leaf⟩, declared, asked⟩
      split at asked
      · cases asked
      · next filled =>
          obtain ⟨target, refers, made⟩ := List.mem_filterMap.mp asked
          obtain ⟨found, known, same⟩ := Option.map_eq_some_iff.mp made
          cases same
          exact ⟨field, leaf, Std.ExtTreeMap.mem_toList_iff_getElem?_eq_some.mp declared,
            not_not.mp fun none => filled (isEmpty_valuesIn_iff.mpr none), target, refers, rfl,
            found, known, rfl⟩
    · rintro ⟨field, leaf, declared, given, target, refers, rfl, found, known, rfl⟩
      refine ⟨(field, leaf), Std.ExtTreeMap.mem_toList_iff_getElem?_eq_some.mpr declared, ?_⟩
      rw [if_neg fun empty => isEmpty_valuesIn_iff.mp empty given]
      exact List.mem_filterMap.mpr ⟨target, refers, by rw [known]; rfl⟩

section Given

variable {σ : Type} (schema) (subject : Forest σ) (gives : TableSchema → String → String → Prop)

/-- Whether a subject refers to a leaf of a table by a value that it gives one of its leafrefs. -/
def Refers (name leaf value : String) : Prop :=
  ∃ own field decl, HasTable schema subject own ∧ own.leaf? field = some decl ∧
    gives own field value ∧ ⟨name, leaf⟩ ∈ decl.targets

/-- Whether a subject needs a whole table: a must rule of one of its tables names the table, or it refers
to a leaf of the table that is not its only key. -/
def NeedsWhole (name : String) : Prop :=
  (∃ own, HasTable schema subject own ∧ name ∈ own.dependentTables) ∨
    ∃ found leaf value, schema.table? name = some found ∧ Refers schema subject gives name leaf value ∧
      isSingleKey found leaf = false

/-- Whether a subject needs a row of a table, referring to it by the only key of the table. -/
def NeedsRow (name rowKey : String) : Prop :=
  ∃ found leaf, schema.table? name = some found ∧ Refers schema subject gives name leaf rowKey ∧
    isSingleKey found leaf = true

end Given

/-- A table with one key that is no list is without combinations. -/
theorem isSingle_of_isSingleKey {leaf : String} (single : isSingleKey table leaf = true) :
    table.IsSingle := by
  intro segment member
  rw [of_decide_eq_true single] at member
  rw [List.mem_singleton.mp member]

/-- Some table of a subject asks for a whole table exactly if the subject needs it whole. -/
theorem exists_whole_ask_iff {σ : Type} {subject : Forest σ} :
    (∃ own, HasTable schema subject own ∧ (name, .whole) ∈ asksOf schema subject own) ↔
      NeedsWhole schema subject (GivesPlainly subject) name := by
  simp only [mem_asksOf_iff]
  constructor
  · rintro ⟨own, held, ⟨named, _⟩ | ⟨field, decl, declared, ⟨value, given⟩, ⟨_, leaf⟩, refers, rfl,
      found, known, same⟩⟩
    · exact Or.inl ⟨own, held, named⟩
    · refine Or.inr ⟨found, leaf, value, known, ⟨own, field, decl, held, declared, given, refers⟩, ?_⟩
      by_contra single
      rw [if_pos (by simpa using single)] at same
      cases same
  · rintro (⟨own, held, named⟩ | ⟨found, leaf, value, known, ⟨own, field, decl, held, declared, given,
      refers⟩, wide⟩)
    · exact ⟨own, held, Or.inl ⟨named, trivial⟩⟩
    · refine ⟨own, held, Or.inr ⟨field, decl, declared, ⟨value, given⟩, _, refers, rfl, found, known, ?_⟩⟩
      rw [wide]
      rfl

/-- Some table of a subject asks for a row by its key exactly if the subject needs the row. -/
theorem exists_rows_ask_iff {σ : Type} {subject : Forest σ} {rowKey : String} :
    (∃ own keys, HasTable schema subject own ∧ (name, .rows keys) ∈ asksOf schema subject own ∧
      rowKey ∈ keys) ↔ NeedsRow schema subject (GivesPlainly subject) name rowKey := by
  simp only [mem_asksOf_iff]
  constructor
  · rintro ⟨own, keys, held, ⟨_, impossible⟩ | ⟨field, decl, declared, _, ⟨_, leaf⟩, refers, rfl, found,
      known, same⟩, inside⟩
    · cases impossible
    · by_cases single : isSingleKey found leaf = true
      · rw [if_pos single] at same
        cases same
        exact ⟨found, leaf, known, ⟨own, field, decl, held, declared, mem_valuesIn_iff.mp inside, refers⟩,
          single⟩
      · rw [if_neg single] at same
        cases same
  · rintro ⟨found, leaf, known, ⟨own, field, decl, held, declared, given, refers⟩, single⟩
    refine ⟨own, _, held, Or.inr ⟨field, decl, declared, ⟨rowKey, given⟩, _, refers, rfl, found, known, ?_⟩,
      mem_valuesIn_iff.mpr given⟩
    rw [if_pos single]

/-- What is wanted for a subject is what it needs by the values directly below its list instances. -/
theorem wants_spec {σ : Type} {subject : Forest σ} (sound : schema.IsSound)
    (accepted : wantsOfSubject schema subject = .ok wants) (name : String) :
    (wants[name]? = some .whole ↔ NeedsWhole schema subject (GivesPlainly subject) name) ∧
      (∀ rowKey, wants.Covers name rowKey ↔ NeedsWhole schema subject (GivesPlainly subject) name ∨
        NeedsRow schema subject (GivesPlainly subject) name rowKey) := by
  obtain ⟨asks, rfl, members⟩ := exists_asks sound accepted
  obtain ⟨whole, covers, _⟩ := Wants.addAll_spec asks ∅ name
  refine ⟨by simpa [members, exists_whole_ask_iff] using whole, fun rowKey => (covers rowKey).trans ?_⟩
  have nothing : ¬(∅ : Wants).Covers name rowKey := by
    rintro ⟨want, held, _⟩
    simp at held
  rw [or_iff_right nothing, ← exists_whole_ask_iff, ← exists_rows_ask_iff]
  simp only [members]
  constructor
  · rintro ⟨want, ⟨own, held, asked⟩, covered⟩
    cases want with
    | whole => exact Or.inl ⟨own, held, asked⟩
    | rows keys => exact Or.inr ⟨own, keys, held, asked, of_decide_eq_true covered⟩
  · rintro (⟨own, held, asked⟩ | ⟨own, keys, held, asked, inside⟩)
    · exact ⟨.whole, ⟨own, held, asked⟩, rfl⟩
    · exact ⟨.rows keys, ⟨own, held, asked⟩, decide_eq_true inside⟩

/-- Single rows are wanted for a subject only of tables with single-valued keys. -/
theorem namesRows_of_wantsOfSubject {σ : Type} {subject : Forest σ} (sound : schema.IsSound)
    (accepted : wantsOfSubject schema subject = .ok wants) : NamesRows schema wants := by
  intro name keys wanted
  obtain ⟨whole, covers⟩ := wants_spec sound accepted name
  have narrow : ¬NeedsWhole schema subject (GivesPlainly subject) name := by
    rw [← whole, wanted]
    nofun
  obtain ⟨asks, same, members⟩ := exists_asks sound accepted
  have there : wants[name]?.isSome := by
    rw [wanted]
    rfl
  rw [same] at there
  obtain ⟨want, asked⟩ := (((Wants.addAll_spec asks ∅ name).2.2).mp there).resolve_left (by simp)
  obtain ⟨own, held, askedOwn⟩ := (members _).mp asked
  rcases mem_asksOf_iff.mp askedOwn with ⟨named, _⟩ | ⟨field, leaf, declared, ⟨value, given⟩,
    ⟨_, field'⟩, refers, rfl, found, known, _⟩
  · exact absurd (Or.inl ⟨own, held, named⟩) narrow
  · have reference : Refers schema subject (GivesPlainly subject) _ field' value :=
      ⟨own, field, leaf, held, declared, given, refers⟩
    have single : isSingleKey found field' = true := by
      by_contra wide
      exact narrow (Or.inr ⟨found, field', value, known, reference, by simpa using wide⟩)
    refine ⟨⟨value, ?_⟩, fun table tableKnown => ?_⟩
    · obtain ⟨want, again, covered⟩ := (covers value).mpr
        (Or.inr ⟨found, field', known, reference, single⟩)
      cases wanted.symm.trans again
      exact of_decide_eq_true covered
    · cases known.symm.trans tableKnown
      exact isSingle_of_isSingleKey single

end Dependency

end ConfigVetting
