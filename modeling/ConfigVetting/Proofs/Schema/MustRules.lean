import ConfigVetting.Proofs.Schema.Tables
import ConfigVetting.Proofs.Text.Words

/-! # Tables that must rules name

A table depends on the other tables of the schema that its must rules name as whole words
(`ConfigVetting.Schema.mem_dependentTables_iff`). Of several rules with one node only the last is kept, so
that a table which only an earlier one names is missed.
-/

namespace ConfigVetting

/-- Whether a declaration ends with a rule as far as its node goes: no later rule has the same node. -/
def TableDecl.EndsWith (decl : TableDecl) (rule : MustRule) : Prop :=
  ∃ before after, decl.must = before ++ rule :: after ∧ ∀ later ∈ after, later.node ≠ rule.node

/-- The last rule of a node. -/
theorem TableDecl.getLast?_filter_eq_some_iff {decl : TableDecl} {node : String} {rule : MustRule} :
    (decl.must.filter fun rule => rule.node = node).getLast? = some rule ↔
      decl.EndsWith rule ∧ rule.node = node := by
  rw [List.getLast?_eq_head?_reverse, ← List.filter_reverse, List.head?_filter,
    List.find?_eq_some_iff_append, decide_eq_true_iff]
  constructor
  · rintro ⟨named, after, before, whole, others⟩
    refine ⟨⟨before.reverse, after.reverse, ?_, fun later member same => ?_⟩, named⟩
    · rw [← List.reverse_inj, whole]
      simp
    · simpa [same.trans named] using others later (List.mem_reverse.mp member)
  · rintro ⟨⟨before, after, whole, others⟩, named⟩
    refine ⟨named, after.reverse, before.reverse, by simp [whole], fun later member => ?_⟩
    simpa [named] using others later (List.mem_reverse.mp member)

/-- Rules with different nodes are all the last of theirs. -/
theorem TableDecl.endsWith_of_nodup {decl : TableDecl} (apart : (decl.must.map MustRule.node).Nodup)
    {rule : MustRule} (member : rule ∈ decl.must) : decl.EndsWith rule := by
  obtain ⟨before, after, whole⟩ := List.append_of_mem member
  refine ⟨before, after, whole, fun later inside same => ?_⟩
  rw [whole, List.map_append, List.map_cons, List.nodup_append, List.nodup_cons] at apart
  exact apart.2.1.1 (same ▸ List.mem_map_of_mem inside)

namespace TableSchema

variable {moduleName delimiter : String} {decl : TableDecl} {table : TableSchema}

private theorem name_and_must_of_ofDecl [PatternReader]
    (read : ofDecl moduleName delimiter decl = .ok table) :
    table.name = decl.name ∧
      table.must = decl.must.foldl (fun rules rule => rules.insert rule.node rule) ∅ := by
  obtain ⟨segments, _, rest⟩ := Except.bind_eq_ok_iff.mp read
  obtain ⟨mapLeaves, _, rest⟩ := Except.bind_eq_ok_iff.mp rest
  obtain ⟨leaves, _, rest⟩ := Except.bind_eq_ok_iff.mp rest
  cases rest
  exact ⟨rfl, rfl⟩

/-- The rules of a table that was read are the last ones of their nodes. -/
theorem mem_must_of_ofDecl [PatternReader] (read : ofDecl moduleName delimiter decl = .ok table)
    {rule : MustRule} :
    rule ∈ table.must.values ↔ decl.EndsWith rule := by
  have last : ∀ node : String, table.must[node]? =
      (decl.must.filter fun rule => rule.node = node).getLast? := by
    intro node
    have each : ∀ (rules : ByName MustRule) (rule : MustRule), (rules.insert rule.node rule)[node]? =
        (Option.guard (fun rule => rule.node = node) rule).or rules[node]? := by
      intro rules rule
      rw [ByName.getElem?_insert]
      by_cases own : rule.node = node <;> simp [Option.guard, own]
    rw [(name_and_must_of_ofDecl read).2, ByName.getElem?_foldl_of_step each, List.filterMap_eq_filter]
    simp
  rw [ByName.mem_values_iff]
  simp only [last, TableDecl.getLast?_filter_eq_some_iff, exists_and_left, exists_eq', and_true]

end TableSchema

namespace Schema

variable {modules : List ModuleDecl} {delimiter : String} {schema : Schema}

/-- The tables read so far with that of one more declaration. -/
def readTable [PatternReader] (delimiter moduleName : String) (tables : ByName TableSchema)
    (decl : TableDecl) :
    Except SchemaFault.Cause (ByName TableSchema) := do
  let table ← TableSchema.ofDecl moduleName delimiter decl
  if table.name ∈ tables then throw (.duplicateTable table.name)
  return tables.insert table.name table

private theorem readTables_eq [PatternReader] (delimiter : String) (modules : List ModuleDecl) :
    readTables delimiter modules = modules.foldlM (fun tables moduleDecl =>
      moduleDecl.tables.foldlM (readTable delimiter moduleDecl.name) tables) ∅ := rfl

private theorem of_readTable [PatternReader] {moduleName : String} {decl : TableDecl}
    {before after : ByName TableSchema}
    (read : readTable delimiter moduleName before decl = .ok after) :
    ∃ table, TableSchema.ofDecl moduleName delimiter decl = .ok table ∧ decl.name ∉ before ∧
      after = before.insert decl.name table := by
  obtain ⟨table, made, rest⟩ := Except.bind_eq_ok_iff.mp read
  rw [(TableSchema.name_and_must_of_ofDecl made).1] at rest
  by_cases twice : decl.name ∈ before
  · rw [if_pos twice] at rest
    cases rest
  · rw [if_neg twice] at rest
    cases rest
    exact ⟨table, made, twice, rfl⟩

/-- Whether a declaration was read and its table is there under its name. -/
def IsRead [PatternReader] (delimiter moduleName : String) (decl : TableDecl)
    (tables : ByName TableSchema) : Prop :=
  ∃ table, TableSchema.ofDecl moduleName delimiter decl = .ok table ∧ tables[decl.name]? = some table

/-- A table that was read stays there while others are. -/
theorem IsRead.readTable [PatternReader] {moduleName other : String} {decl otherDecl : TableDecl}
    {before after : ByName TableSchema} (isRead : IsRead delimiter moduleName decl before)
    (read : readTable delimiter other before otherDecl = .ok after) :
    IsRead delimiter moduleName decl after := by
  obtain ⟨table, made, there⟩ := isRead
  obtain ⟨_, _, absent, rfl⟩ := of_readTable read
  refine ⟨table, made, ?_⟩
  rw [ByName.getElem?_insert, if_neg]
  · exact there
  · intro same
    rw [same] at absent
    exact absent (Std.ExtTreeMap.mem_iff_isSome_getElem?.mpr (by rw [there]; rfl))

/-- Every table that is declared is read, and no later one takes its place. -/
theorem isRead_of_readTables [PatternReader] {tables : ByName TableSchema}
    (read : readTables delimiter modules = .ok tables) :
    ∀ moduleDecl ∈ modules, ∀ decl ∈ moduleDecl.tables, IsRead delimiter moduleDecl.name decl tables := by
  rw [readTables_eq] at read
  refine Except.foldlM_all
    (fun moduleDecl tables => ∀ decl ∈ moduleDecl.tables, IsRead delimiter moduleDecl.name decl tables)
    (fun before moduleDecl after readModule => ?_)
    (fun other before moduleDecl after all readModule decl member => ?_) read
  · refine Except.foldlM_all (IsRead delimiter moduleDecl.name) (fun before decl after read => ?_)
      (fun decl before other after isRead read => isRead.readTable read) readModule
    obtain ⟨table, made, _, rfl⟩ := of_readTable read
    exact ⟨table, made, by rw [ByName.getElem?_insert, if_pos rfl]⟩
  · exact Except.foldlM_invariant (IsRead delimiter other.name decl)
      (fun before otherDecl after isRead read => isRead.readTable read) (all decl member) readModule

/-- The tables that the rules of a table name are other ones of those given, each named as a whole
word. -/
theorem mem_namedTables_iff {names : List String} {table : TableSchema} {name : String} :
    name ∈ namedTables names table ↔ name ∈ names ∧ name ≠ table.name ∧
      ∃ rule ∈ table.must.values, Text.IsWordIn name rule.expression := by
  have inserted := @Names.mem_foldl_insert _ id (names.filter fun name =>
    name ≠ table.name && table.must.values.any fun rule => Text.hasWord name rule.expression) ∅ name
  rw [List.foldl_filter] at inserted
  refine inserted.trans ?_
  simp only [List.map_id, List.mem_filter, Std.ExtTreeSet.not_mem_empty, or_false, Bool.and_eq_true,
    decide_eq_true_iff, List.any_eq_true, Text.hasWord_iff]

/-- **Tables named by must rules.** In a schema that is built, a table depends on exactly the other tables
that one of its rules names as a whole word, of the rules with one node only the last; so on all that a rule
names, if no two rules have one node. -/
theorem mem_dependentTables_iff [PatternReader] (built : build modules delimiter = .ok schema)
    {moduleDecl : ModuleDecl}
    (listed : moduleDecl ∈ modules) {decl : TableDecl} (declared : decl ∈ moduleDecl.tables) :
    ∃ table, schema.table? decl.name = some table ∧
      (∀ name, name ∈ table.dependentTables ↔ (schema.table? name).isSome ∧ name ≠ decl.name ∧
        ∃ rule, decl.EndsWith rule ∧ Text.IsWordIn name rule.expression) ∧
      ((decl.must.map MustRule.node).Nodup → ∀ name, name ∈ table.dependentTables ↔
        (schema.table? name).isSome ∧ name ≠ decl.name ∧
          ∃ rule ∈ decl.must, Text.IsWordIn name rule.expression) := by
  obtain ⟨tables, read, made⟩ := Except.bind_eq_ok_iff.mp built
  cases made
  obtain ⟨table, readDecl, stored⟩ :=
    isRead_of_readTables (Except.mapError_eq_ok_iff.mp read) moduleDecl listed decl declared
  have depends : ∀ name, name ∈ namedTables tables.keys table ↔
      (tables[name]?).isSome ∧ name ≠ decl.name ∧
        ∃ rule, decl.EndsWith rule ∧ Text.IsWordIn name rule.expression := by
    intro name
    rw [mem_namedTables_iff, Std.ExtTreeMap.mem_keys, Std.ExtTreeMap.mem_iff_isSome_getElem?,
      (TableSchema.name_and_must_of_ofDecl readDecl).1]
    simp only [TableSchema.mem_must_of_ofDecl readDecl]
  have known : ∀ name, ((⟨tables.map fun _ table =>
      { table with dependentTables := namedTables tables.keys table }⟩ : Schema).table? name).isSome =
        (tables[name]?).isSome := by
    intro name
    rw [table?, Std.ExtTreeMap.getElem?_map, Option.isSome_map]
  refine ⟨{ table with dependentTables := namedTables tables.keys table }, ?_, fun name => ?_,
    fun apart name => ?_⟩
  · rw [table?, Std.ExtTreeMap.getElem?_map, stored]
    rfl
  · rw [known]
    exact depends name
  · rw [known]
    refine (depends name).trans (and_congr_right fun _ => and_congr_right fun _ => exists_congr fun rule =>
      and_congr_left fun _ => ⟨?_, TableDecl.endsWith_of_nodup apart⟩)
    rintro ⟨before, after, whole, _⟩
    rw [whole]
    exact List.mem_append_right _ List.mem_cons_self

/-- A table with two rules, each of which names another table. -/
def memberDecl (node : String) : TableDecl :=
  { name := "MEMBER", keyPattern := "MEMBER|\x7bid\x7d", must := [
    { node := "MEMBER_LIST", expression := "/PORT/PORT_LIST" },
    { node, expression := "count(/PORTCHANNEL/PORTCHANNEL_LIST) < 9" }] }

/-- That table and the two that its rules name. -/
def memberModules (node : String) : List ModuleDecl := [{ name := "m", tables := [
  { name := "PORT", keyPattern := "PORT|\x7bname\x7d" },
  { name := "PORTCHANNEL", keyPattern := "PORTCHANNEL|\x7bname\x7d" }, memberDecl node] }]

/-- With rules of two nodes, the table depends on both tables. -/
theorem mem_dependentTables_members : ∃ schema table,
    build (memberModules "id") usualDelimiter = .ok schema ∧
      schema.table? (memberDecl "id").name = some table ∧
      ∀ name ∈ ["PORT", "PORTCHANNEL"], name ∈ table.dependentTables := by
  have built := build_eq_ofModules
    (show (build (memberModules "id") usualDelimiter).isOk by decide +kernel)
  obtain ⟨table, known, _, all⟩ := mem_dependentTables_iff built List.mem_cons_self
    (show memberDecl "id" ∈ _ from List.mem_cons_of_mem _ (List.mem_cons_of_mem _ List.mem_cons_self))
  refine ⟨_, table, built, known, fun name listed => (all (by decide) name).mpr ?_⟩
  have tables : ∀ name ∈ ["PORT", "PORTCHANNEL"],
      ((ofModules (memberModules "id")).table? name).isSome ∧ name ≠ (memberDecl "id").name ∧
        ∃ rule ∈ (memberDecl "id").must, Text.hasWord name rule.expression = true := by
    decide +kernel
  simpa only [Text.hasWord_iff] using tables name listed

/-- With two rules of one node, the table does not depend on the table that only the first one names. -/
theorem memberModules_not_mem_dependentTables : ∃ schema table,
    build (memberModules "MEMBER_LIST") usualDelimiter = .ok schema ∧
      schema.table? (memberDecl "MEMBER_LIST").name = some table ∧ (schema.table? "PORT").isSome ∧
      (∃ rule ∈ (memberDecl "MEMBER_LIST").must, Text.IsWordIn "PORT" rule.expression) ∧
      "PORT" ∉ table.dependentTables := by
  have built := build_eq_ofModules
    (show (build (memberModules "MEMBER_LIST") usualDelimiter).isOk by decide +kernel)
  have facts : ((ofModules (memberModules "MEMBER_LIST")).table? "MEMBER").any fun table =>
      ((ofModules (memberModules "MEMBER_LIST")).table? "PORT").isSome ∧
        "PORT" ∉ table.dependentTables := by
    decide +kernel
  obtain ⟨table, known, holds⟩ := (Option.any_eq_true _ _).mp facts
  obtain ⟨port, missed⟩ := of_decide_eq_true holds
  refine ⟨_, table, built, known, port, ?_, missed⟩
  exact ⟨_, List.mem_cons_self, Text.hasWord_iff.mp (by decide)⟩

end Schema

end ConfigVetting
