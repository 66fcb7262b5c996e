import ConfigVetting.Proofs.Session.Wanting

/-! # The data that is resolved

A row is needed for a subject if the subject refers to it, or if its table is brought in by tables that are
needed whole. What is resolved holds the rows that are needed by the values directly below the list
instances of the subject. The values in entries are not looked at, so it holds all that is needed exactly
if these need nothing more (`ConfigVetting.Dependency.gathers_iff_needsPlainly`).
-/

namespace ConfigVetting

namespace Dependency

open WorldM Forest

variable {schema : Schema} {table : TableSchema} {wants : Wants} {rowKey : String}

private theorem Brings.mono {first more : String → Prop} (less : ∀ name, first name → more name)
    {name : String}
    (brings : Brings schema first name) : Brings schema more name := by
  induction brings with
  | first wanted => exact .first (less _ wanted)
  | next _ known named ih => exact .next ih known named

section Needed

variable {σ : Type} {subject : Forest σ} {gives more : TableSchema → String → String → Prop}

/-- Whether the list instances of a table in a subject have a value that is not empty in a leaf, directly
below one of them or in the value leaf of an entry. -/
def Gives (subject : Forest σ) (table : TableSchema) (field value : String) : Prop :=
  value ≠ "" ∧ ∃ node ∈ subject.listInstances table.name, table.Gives node field value

/-- Whether a row is needed for a subject by the values that it gives its leafrefs: its table is brought
in by the tables that are needed whole, or the subject refers to the row. -/
def IsNeeded (schema : Schema) (subject : Forest σ) (gives : TableSchema → String → String → Prop)
    (table : TableSchema) (rowKey : String) : Prop :=
  Brings schema (NeedsWhole schema subject gives) table.name ∨
    NeedsRow schema subject gives table.name rowKey

private theorem Refers.mono (less : ∀ table field value, gives table field value → more table field value)
    {name leaf value : String} (refers : Refers schema subject gives name leaf value) :
    Refers schema subject more name leaf value := by
  obtain ⟨own, field, decl, held, declared, given, targets⟩ := refers
  exact ⟨own, field, decl, held, declared, less _ _ _ given, targets⟩

/-- The more values a subject gives, the more rows are needed. -/
theorem IsNeeded.mono (less : ∀ table field value, gives table field value → more table field value)
    (needed : IsNeeded schema subject gives table rowKey) :
    IsNeeded schema subject more table rowKey := by
  refine needed.imp (Brings.mono fun name => Or.imp_right ?_) ?_
  · rintro ⟨found, leaf, value, known, refers, wide⟩
    exact ⟨found, leaf, value, known, refers.mono less, wide⟩
  · rintro ⟨found, leaf, known, refers, single⟩
    exact ⟨found, leaf, known, refers.mono less, single⟩

private theorem gives_of_givesPlainly {field value : String}
    (given : GivesPlainly subject table field value) :
    Gives subject table field value :=
  ⟨given.1, given.2.imp fun _ inside => ⟨inside.1, Or.inl inside.2⟩⟩

/-- The rows that are due by what is wanted for a subject are needed by the values directly below its list
instances. -/
theorem isDue_iff_isNeeded (sound : schema.IsSound)
    (accepted : wantsOfSubject schema subject = .ok wants) :
    IsDue schema wants table rowKey ↔
      IsNeeded schema subject (GivesPlainly subject) table rowKey := by
  have spec := wants_spec sound accepted
  unfold IsDue IsNeeded
  simp only [(spec _).1, (spec _).2]
  constructor
  · rintro (brings | whole | row)
    · exact Or.inl brings
    · exact Or.inl (.first whole)
    · exact Or.inr row
  · rintro (brings | row)
    · exact Or.inl brings
    · exact Or.inr (Or.inr row)

end Needed

variable {σ : Type} {subject : Forest σ} {source : Source}
  {view : TableSchema → String → Option Fields}

/-- Whether all rows that are there and needed for a subject are needed by values directly below its list
instances. -/
def NeedsPlainly (schema : Schema) (view : TableSchema → String → Option Fields) (subject : Forest σ) :
    Prop :=
  ∀ table, schema.table? table.name = some table → ∀ rowKey, (view table rowKey).isSome →
    IsNeeded schema subject (Gives subject) table rowKey →
      IsNeeded schema subject (GivesPlainly subject) table rowKey

/-- Whether no list instance of a row that is loaded by itself and once more with its table changes when it
is joined to itself. -/
def ReloadsAlike (schema : Schema) (view : TableSchema → String → Option Fields)
    (loads : List (String × Want)) : Prop :=
  ∀ table, schema.table? table.name = some table → ∀ rowKey ∈ reloadedKeys loads table.name,
    ∀ fields, view table rowKey = some fields →
      Forest.joined (table.rowNode rowKey fields) (table.rowNode rowKey fields) =
        table.rowNode rowKey fields

/-- Without leafrefs in the values of entries, all rows are needed plainly. -/
theorem needsPlainly_of_noEntries (none : ∀ table, schema.table? table.name = some table →
    table.mapLeaves = none) (view : TableSchema → String → Option Fields) (subject : Forest σ) :
    NeedsPlainly schema view subject := by
  have refers : ∀ {name leaf value}, Refers schema subject (Gives subject) name leaf value →
      Refers schema subject (GivesPlainly subject) name leaf value := by
    rintro name leaf value ⟨own, field, decl, held, declared, ⟨filled, node, inside, given⟩, targets⟩
    refine ⟨own, field, decl, held, declared, ⟨filled, node, inside, ?_⟩, targets⟩
    refine given.resolve_right ?_
    rintro ⟨nameLeaf, mapped, _⟩
    rw [none own held.1] at mapped
    cases mapped
  intro table known rowKey _ needed
  refine needed.imp (Brings.mono fun name => Or.imp_right ?_) ?_
  · rintro ⟨found, leaf, value, foundKnown, referred, wide⟩
    exact ⟨found, leaf, value, foundKnown, refers referred, wide⟩
  · rintro ⟨found, leaf, foundKnown, referred, single⟩
    exact ⟨found, leaf, foundKnown, refers referred, single⟩

/-- Rows that are loaded twice belong to whole tables with single-valued keys. -/
theorem of_mem_reloadedKeys (names : NamesRows schema wants) {table : TableSchema}
    (known : schema.table? table.name = some table) {rowKey : String}
    (member : rowKey ∈ reloadedKeys (allLoads schema wants) table.name) :
    (∀ other, IsDue schema wants table other) ∧ table.IsSingle := by
  unfold reloadedKeys at member
  split at member
  · next keys twice =>
      have there : (schema.table? table.name).isSome := Option.isSome_of_eq_some known
      refine ⟨fun other => (isDue_iff known).mpr ⟨.whole, ?_, rfl⟩, ?_⟩
      · rw [twice]
        simp
      · refine (names table.name keys ?_).2 table known
        refine (rows_mem_loadsOf schema wants there keys).1 ?_
        rw [twice]
        exact List.mem_cons_self
  · simp at member

private theorem namesRows_wantsOfTable (schema : Schema) (name : String) :
    NamesRows schema (wantsOfTable schema name) := by
  intro other keys wanted
  rw [getElem?_wantsOfTable] at wanted
  split at wanted <;> cases wanted

/-- What is due for the checks of a table are the tables that these need, with what they bring in. -/
theorem isDue_wantsOfTable_iff {name rowKey : String} {table : TableSchema} :
    IsDue schema (wantsOfTable schema name) table rowKey ↔
      Brings schema (fun other => other ∈ schema.requiredTables name) table.name := by
  have whole : ∀ other : String, (wantsOfTable schema name)[other]? = some .whole ↔
      other ∈ schema.requiredTables name := by
    intro other
    rw [getElem?_wantsOfTable]
    split <;> simp_all
  unfold IsDue
  simp only [whole]
  refine or_iff_left_of_imp ?_
  rintro ⟨want, wanted, _⟩
  rw [getElem?_wantsOfTable] at wanted
  split at wanted
  · next needed => exact .first needed
  · cases wanted

/-- For the checks of a table no row is loaded twice. -/
theorem notMem_reloadedKeys_wantsOfTable {name rowKey : String} {table : TableSchema}
    (known : schema.table? table.name = some table) :
    rowKey ∉ reloadedKeys (allLoads schema (wantsOfTable schema name)) table.name := by
  unfold reloadedKeys
  split
  · next keys twice =>
      have there : (schema.table? table.name).isSome := Option.isSome_of_eq_some known
      have wanted := (rows_mem_loadsOf schema (wantsOfTable schema name) there keys).1 (by
        rw [twice]
        exact List.mem_cons_self)
      exact absurd wanted (by rw [getElem?_wantsOfTable]; split <;> nofun)
  · simp

/-- What is resolved for a table without the cache are the rows of the tables that its checks need, and of
those that these bring in. -/
theorem gathers_of_ofTable {name : String} {document : Document} {world later : World}
    (sound : source.setting.schema.IsSound) (uncached : source.useCache = false)
    (accepted : (ofTable source name).outcome world = (.ok document, later)) :
    document.Gathers source.setting.schema (source.staged.view world.store.rows)
      (fun table _ =>
        Brings source.setting.schema (fun other => other ∈ source.setting.schema.requiredTables name)
          table.name)
      fun _ node => node := by
  obtain ⟨_, middle, checked, assembled⟩ := outcome_bind_eq_ok_iff.mp accepted
  have same : middle.store.rows = world.store.rows :=
    ((IsReading.discard (IsReading.except _)).onlyRead checked :
      world.OnlyRead source.setting middle).rows
  have gathers := (gathers_of_assemble sound uncached (namesRows_wantsOfTable _ name) assembled).2
  rw [same] at gathers
  refine gathers.congr (fun table _ rowKey _ => isDue_wantsOfTable_iff)
    (fun table rowKey => isDue_wantsOfTable_iff.mp) ?_
  intro table known rowKey fields _ _ combinations _ components _
  exact if_neg fun member => notMem_reloadedKeys_wantsOfTable known member

/-- What is resolved for a subject without the cache are the rows that it needs by the values directly below
its list instances, those of rows that are loaded twice joined to themselves. -/
theorem gathers_of_ofSubject {document : Document} {world later : World}
    (sound : source.setting.schema.IsSound) (uncached : source.useCache = false)
    (accepted : (ofSubject source subject).outcome world = (.ok document, later)) :
    ∃ wants, wantsOfSubject source.setting.schema subject = .ok wants ∧
      document.trees.IsPlaced source.setting.schema ∧
      document.Gathers source.setting.schema (source.staged.view world.store.rows)
        (IsNeeded source.setting.schema subject (GivesPlainly subject)) fun table =>
          TableSchema.rejoined (reloadedKeys (allLoads source.setting.schema wants) table.name) := by
  obtain ⟨wants, middle, wanting, assembled⟩ := outcome_bind_eq_ok_iff.mp accepted
  obtain ⟨wanted, unchanged⟩ := outcome_except_eq_ok_iff.mp wanting
  rw [unchanged] at assembled
  obtain ⟨placed, gathers⟩ :=
    gathers_of_assemble sound uncached (namesRows_of_wantsOfSubject sound wanted) assembled
  refine ⟨wants, wanted, placed, gathers.congr ?_ ?_ fun _ _ _ _ _ _ _ _ _ _ => rfl⟩
  · exact fun table _ rowKey _ => isDue_iff_isNeeded sound wanted
  · exact fun table rowKey => (isDue_iff_isNeeded sound wanted).mp

/-- **Resolution.** Without the cache, no table is loaded more often than twice, and what is resolved for a
table are the list instances of all rows that the session sees of the tables that its checks need and of
those that these bring in. What is resolved for a subject are those of the rows that it needs by the values
directly below its list instances, and those of rows that are loaded twice are joined to themselves. So it
is all that the subject needs, as the session sees it, exactly if the values in its entries need no more and
joining changes nothing. -/
theorem gathers_iff_needsPlainly [PatternReader] {modules : List ModuleDecl} {delimiter : String}
    (built : Schema.build modules delimiter = .ok source.setting.schema)
    (uncached : source.useCache = false) (world : World) :
    let schema := source.setting.schema
    let view := source.staged.view world.store.rows
    (∀ wants table, schema.table? table.name = some table →
      (loadsOf (allLoads schema wants) table.name).length ≤ 2) ∧
    (∀ name document later, (ofTable source name).outcome world = (.ok document, later) →
      document.Gathers schema view
        (fun table _ => Brings schema (fun other => other ∈ schema.requiredTables name) table.name)
        fun _ node => node) ∧
    ∀ (subject : Forest σ) document later,
      (ofSubject source subject).outcome world = (.ok document, later) →
      ∃ wants, wantsOfSubject schema subject = .ok wants ∧
        (document.Gathers schema view (IsNeeded schema subject (GivesPlainly subject)) fun table =>
          TableSchema.rejoined (reloadedKeys (allLoads schema wants) table.name)) ∧
        ((document.Gathers schema view (IsNeeded schema subject (Gives subject)) fun _ node => node) ↔
          NeedsPlainly schema view subject ∧ ReloadsAlike schema view (allLoads schema wants)) := by
  intro schema view
  have sound : schema.IsSound := Schema.isSound_of_build built
  refine ⟨fun wants table known => length_loadsOf_le schema wants (Option.isSome_of_eq_some known),
    fun name document later => gathers_of_ofTable sound uncached, fun subject document later accepted => ?_⟩
  obtain ⟨wants, wanted, _, gathers⟩ := gathers_of_ofSubject sound uncached accepted
  refine ⟨wants, wanted, gathers, ?_⟩
  refine gathers.iff_of_rejoined sound (fun table rowKey => IsNeeded.mono fun _ _ _ =>
    gives_of_givesPlainly)
    ?_ ?_
  · rintro table known rowKey (brings | ⟨found, leaf, foundKnown, _, single⟩)
    · exact Or.inl fun other => Or.inl brings
    · cases known.symm.trans foundKnown
      exact Or.inr (isSingle_of_isSingleKey single)
  · intro table known rowKey member
    obtain ⟨whole, single⟩ := of_mem_reloadedKeys (namesRows_of_wantsOfSubject sound wanted) known member
    exact ⟨(isDue_iff_isNeeded sound wanted).mp (whole rowKey), single⟩

/-- A table of classes and one of maps that refer to them, by a leaf or in their entries. -/
def classModules (mapLeaves : Option (List String)) : List ModuleDecl :=
  [{ name := "m", tables := [
    { name := "CLASS", keyPattern := "CLASS|\x7bid\x7d" },
    { name := "MAP", keyPattern := "MAP|\x7bname\x7d", mapLeaves,
      leaves := [{ name := "class", leafrefs := ["/m:m/CLASS/CLASS_LIST/id"] }] }] }]

/-- Where dependent data of maps is taken from, without the cache. -/
def classSource (mapLeaves : Option (List String)) : Source where
  setting := { schema := .ofModules (classModules mapLeaves), database := 0, batchSize := 100 }
  staged := .empty
  useCache := false

/-- A world that stores two classes. -/
def classWorld : World where
  store := { database := 0
             rows := ((∅ : ByName Fields).insert "CLASS|x" ∅).insert "CLASS|y" ∅ }

/-- The document of a map with one field. -/
def classSubject (mapLeaves : Option (List String)) (field value : String) : Document :=
  ((Document.ofRow (classSource mapLeaves).setting.schema "MAP" "p"
    ((∅ : Fields).insert field value)).toOption).getD .empty

/-- The document of a row of the table, if the row can be translated. -/
theorem ofRow_classSubject {mapLeaves : Option (List String)} {field value : String}
    (translates : (Document.ofRow (classSource mapLeaves).setting.schema "MAP" "p"
      ((∅ : Fields).insert field value)).isOk) :
    Document.ofRow (classSource mapLeaves).setting.schema "MAP" "p" ((∅ : Fields).insert field value) =
      .ok (classSubject mapLeaves field value) := by
  obtain ⟨document, made⟩ := Except.exists_of_isOk translates
  rw [classSubject, made]
  rfl

/-- A map that refers to a class by a leaf gets the class, and all that it needs. -/
theorem gathers_classSubject :
    let source := classSource none
    let subject := classSubject none "class" "x"
    ∃ document later, (ofSubject source subject.roots).outcome classWorld = (.ok document, later) ∧
      document.Gathers source.setting.schema (source.staged.view classWorld.store.rows)
        (IsNeeded source.setting.schema subject.roots (Gives subject.roots)) fun _ node => node := by
  intro source subject
  have built := Schema.build_eq_ofModules
    (show (Schema.build (classModules none) Schema.usualDelimiter).isOk by decide +kernel)
  have entries : ∀ entry ∈ source.setting.schema.tables.toList, entry.2.mapLeaves = none := by
    decide +kernel
  have reloads : (wantsOfSubject source.setting.schema subject.roots).toOption.any fun wants =>
      ∀ entry ∈ source.setting.schema.tables.toList,
        (reloadedKeys (allLoads source.setting.schema wants) entry.1).isEmpty := by
    decide +kernel
  obtain ⟨document, later, accepted⟩ := exists_outcome_of_isOk
    (show ((ofSubject source subject.roots).outcome classWorld).1.isOk by decide +kernel)
  obtain ⟨wants, wanted, _, complete⟩ :=
    (gathers_iff_needsPlainly built rfl classWorld).2.2 subject.roots document later accepted
  refine ⟨document, later, accepted, complete.mpr ⟨needsPlainly_of_noEntries ?_ _ _, ?_⟩⟩
  · exact fun table known => entries _ (Std.ExtTreeMap.mem_toList_iff_getElem?_eq_some.mpr known)
  · intro table known rowKey member
    rw [wanted] at reloads
    have none := of_decide_eq_true reloads _ (Std.ExtTreeMap.mem_toList_iff_getElem?_eq_some.mpr known)
    rw [Std.ExtTreeSet.isEmpty_iff] at none
    simp [none] at member

/-- A map that refers to a class in an entry does not get the class. -/
theorem not_gathers_classSubject :
    let source := classSource (some ["code", "class"])
    let subject := classSubject (some ["code", "class"]) "1" "x"
    (∃ modules delimiter, Schema.build modules delimiter = .ok source.setting.schema) ∧
      Document.ofRow source.setting.schema "MAP" "p" ((∅ : Fields).insert "1" "x") = .ok subject ∧
      ∃ document later, (ofSubject source subject.roots).outcome classWorld = (.ok document, later) ∧
        ¬document.Gathers source.setting.schema (source.staged.view classWorld.store.rows)
          (IsNeeded source.setting.schema subject.roots (Gives subject.roots)) fun _ node => node := by
  intro source subject
  have built := Schema.build_eq_ofModules
    (show (Schema.build (classModules (some ["code", "class"])) Schema.usualDelimiter).isOk by
      decide +kernel)
  have tables : (source.setting.schema.table? "CLASS").any fun table =>
      (source.setting.schema.table? "MAP").any fun own => (own.leaf? "class").any fun decl =>
        table.name = "CLASS" ∧ own.name = "MAP" ∧ own.mapLeaves = some ("code", "class") ∧
          ⟨"CLASS", "id"⟩ ∈ decl.targets ∧ isSingleKey table "id" ∧ (table.expandKey "x").isOk ∧
          (source.staged.view classWorld.store.rows table "x").isSome := by
    decide +kernel
  have entry : ∃ node ∈ subject.roots.listInstances "MAP", ∃ entry ∈ node.children,
      entry.kind = .list ∧ "x" ∈ entry.leafValues "class" := by
    decide +kernel
  have inside : ∃ container ∈ subject.roots.flatMap Node.children, container.name = "MAP" := by
    decide +kernel
  have missing : ((ofSubject source subject.roots).outcome classWorld).1.toOption.any fun document =>
      document.trees.instancesIn "CLASS" = [] := by
    decide +kernel
  obtain ⟨document, answered, none⟩ := (Option.any_eq_true _ _).mp missing
  obtain ⟨table, known, found⟩ := (Option.any_eq_true _ _).mp tables
  obtain ⟨own, ownKnown, found⟩ := (Option.any_eq_true _ _).mp found
  obtain ⟨decl, declared, found⟩ := (Option.any_eq_true _ _).mp found
  obtain ⟨named, ownNamed, mapped, refers, single, expands, seen⟩ := of_decide_eq_true found
  rw [← named] at known none refers
  rw [← ownNamed] at ownKnown entry inside
  obtain ⟨later, accepted⟩ := exists_outcome_of_toOption answered
  refine ⟨⟨_, _, built⟩, ofRow_classSubject (by decide +kernel), document, later, accepted,
    fun gathers => ?_⟩
  obtain ⟨fields, row⟩ := Option.isSome_iff_exists.mp seen
  obtain ⟨combinations, expanded⟩ := Except.exists_of_isOk expands
  obtain ⟨components, chosen⟩ := TableSchema.exists_mem_of_expandKey expanded
  obtain ⟨node, listed, entry, child, isEntry, value⟩ := entry
  have needed : IsNeeded source.setting.schema subject.roots (Gives subject.roots) table "x" :=
    Or.inr ⟨table, "id", known, ⟨own, "class", decl, ⟨ownKnown, inside⟩, declared,
      ⟨by decide, node, listed, Or.inr ⟨"code", mapped, entry, child, isEntry, value⟩⟩, refers⟩,
      single⟩
  have there := (gathers.mem_instancesIn known).mpr
    ⟨"x", fields, needed, row, combinations, expanded, components, chosen, rfl⟩
  rw [of_decide_eq_true none] at there
  cases there

end Dependency

end ConfigVetting
