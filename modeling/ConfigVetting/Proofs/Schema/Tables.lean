import ConfigVetting.Document.Rows
import ConfigVetting.Proofs.Schema.KeyPatterns
import Mathlib.Data.List.Induction

/-! # The tables of a schema

What every table of a schema that was built satisfies (`ConfigVetting.Schema.isSound_of_build`), for each
is one that was read from a declaration (`ConfigVetting.Schema.exists_ofDecl_of_build`); and that a key
which the schema splits is one of its tables (`ConfigVetting.Schema.splitStoreKey_sound`).
-/

namespace ConfigVetting

/-- Whether every leaf stands under its own name, which carries no list mark. -/
def LeafSchema.AreNamed (leaves : ByName LeafSchema) : Prop :=
  ∀ (name : String) (leaf : LeafSchema), leaves[name]? = some leaf →
    leaf.decl.name = name ∧ Text.beforeLast listMark name = none

/-- What holds of every table that was read from a declaration. -/
structure TableSchema.IsSound (table : TableSchema) : Prop where
  delimited : table.keyDelimiter ≠ ""
  named : table.segments ≠ []
  apart : table.keyNames.Nodup
  leaves : LeafSchema.AreNamed table.leaves

/-- Whether every table stands under its own name and is sound. -/
def TableSchema.AreSound (tables : ByName TableSchema) : Prop :=
  ∀ (name : String) (table : TableSchema), tables[name]? = some table →
    table.name = name ∧ table.IsSound

/-- Whether the tables of a schema stand under their own names and are sound. -/
def Schema.IsSound (schema : Schema) : Prop :=
  TableSchema.AreSound schema.tables

/-- A table is known exactly if the schema has it. -/
theorem Schema.knownTable_eq_ok_iff {schema : Schema} {name : String} {table : TableSchema} :
    schema.knownTable name = .ok table ↔ schema.table? name = some table := by
  unfold knownTable
  cases schema.table? name with
  | none => simp
  | some found => simp

namespace LeafSchema

private theorem sound_of_ofDecl [PatternReader] {table : String} {decl : LeafDecl} {leaf : LeafSchema}
    (read : ofDecl table decl = .ok leaf) :
    leaf.decl = decl ∧ Text.beforeLast listMark decl.name = none := by
  unfold ofDecl at read
  by_cases marked : (Text.beforeLast listMark decl.name).isSome
  · rw [if_pos marked] at read
    cases read
  · rw [if_neg marked] at read
    refine ⟨?_, by simpa using marked⟩
    obtain ⟨targets, _, rest⟩ := Except.bind_eq_ok_iff.mp read
    cases written : decl.pattern with
    | none =>
        simp only [written] at rest
        cases rest
        rfl
    | some text =>
        simp only [written] at rest
        cases parsed : Pattern.parse? text with
        | none =>
            simp only [parsed] at rest
            cases rest
        | some pattern =>
            simp only [parsed] at rest
            cases rest
            rfl

/-- The leaves that are read stand under their names, which carry no list mark. -/
theorem areNamed_of_byName [PatternReader] {table : String} {decls : List LeafDecl}
    {leaves : ByName LeafSchema}
    (read : byName table decls = .ok leaves) : AreNamed leaves := by
  refine Except.foldlM_invariant AreNamed (fun leaves decl later sound stepped => ?_) ?_ read
  · intro name leaf found
    obtain ⟨made, readLeaf, rest⟩ := Except.bind_eq_ok_iff.mp stepped
    obtain ⟨declared, unmarked⟩ := sound_of_ofDecl readLeaf
    by_cases twice : decl.name ∈ leaves
    · rw [if_pos twice] at rest
      cases rest
    · rw [if_neg twice] at rest
      cases rest
      rw [ByName.getElem?_insert] at found
      by_cases same : decl.name = name
      · rw [if_pos same, Option.some.injEq] at found
        subst same found
        exact ⟨by rw [declared], unmarked⟩
      · rw [if_neg same] at found
        exact sound name leaf found
  · intro name leaf found
    simp at found

end LeafSchema

private theorem TableSchema.isSound_of_ofDecl [PatternReader] {moduleName delimiter : String}
    {decl : TableDecl}
    {table : TableSchema} (read : ofDecl moduleName delimiter decl = .ok table) :
    table.IsSound := by
  obtain ⟨_, _, _, delimited, written⟩ := isWritten_of_ofDecl read
  obtain ⟨segments, _, rest⟩ := Except.bind_eq_ok_iff.mp read
  obtain ⟨mapLeaves, _, rest⟩ := Except.bind_eq_ok_iff.mp rest
  obtain ⟨leaves, readLeaves, rest⟩ := Except.bind_eq_ok_iff.mp rest
  cases rest
  exact ⟨delimited, written.filled, written.apart, LeafSchema.areNamed_of_byName readLeaves⟩

namespace Schema

/-- The tables that are read stand under their names, each read from a declaration. -/
theorem exists_ofDecl_of_readTables [PatternReader] {delimiter : String} {modules : List ModuleDecl}
    {tables : ByName TableSchema} (read : readTables delimiter modules = .ok tables) :
    ∀ (name : String) (table : TableSchema), tables[name]? = some table → table.name = name ∧
      ∃ moduleName decl, TableSchema.ofDecl moduleName delimiter decl = .ok table := by
  let AreRead (tables : ByName TableSchema) : Prop := ∀ (name : String) (table : TableSchema),
    tables[name]? = some table → table.name = name ∧
      ∃ moduleName decl, TableSchema.ofDecl moduleName delimiter decl = .ok table
  refine Except.foldlM_invariant AreRead (fun _ decl _ before readModule => ?_) ?_ read
  · refine Except.foldlM_invariant AreRead (fun tables tableDecl later before stepped => ?_)
      before readModule
    intro name table found
    obtain ⟨made, readTable, rest⟩ := Except.bind_eq_ok_iff.mp stepped
    by_cases twice : made.name ∈ tables
    · rw [if_pos twice] at rest
      cases rest
    · rw [if_neg twice] at rest
      cases rest
      rw [ByName.getElem?_insert] at found
      by_cases same : made.name = name
      · rw [if_pos same, Option.some.injEq] at found
        subst found
        exact ⟨same, decl.name, tableDecl, readTable⟩
      · rw [if_neg same] at found
        exact before name table found
  · intro name table found
    simp at found

/-- The tables of a schema that is built are those that were read, but for the tables that they depend
on. -/
theorem exists_ofDecl_of_build [PatternReader] {modules : List ModuleDecl} {delimiter : String}
    {schema : Schema}
    (built : build modules delimiter = .ok schema) {name : String} {table : TableSchema}
    (known : schema.table? name = some table) : table.name = name ∧
      ∃ moduleName decl readTable, TableSchema.ofDecl moduleName delimiter decl = .ok readTable ∧
        table = { readTable with dependentTables := table.dependentTables } := by
  obtain ⟨tables, read, made⟩ := Except.bind_eq_ok_iff.mp built
  cases made
  rw [table?, Std.ExtTreeMap.getElem?_map, Option.map_eq_some_iff] at known
  obtain ⟨readTable, stored, rfl⟩ := known
  obtain ⟨own, moduleName, decl, made⟩ :=
    exists_ofDecl_of_readTables (Except.mapError_eq_ok_iff.mp read) name readTable stored
  exact ⟨own, moduleName, decl, readTable, made, rfl⟩

/-- A schema that is built has sound tables, each under its own name. -/
theorem isSound_of_build [PatternReader] {modules : List ModuleDecl} {delimiter : String} {schema : Schema}
    (built : build modules delimiter = .ok schema) : schema.IsSound := by
  intro name table known
  obtain ⟨own, moduleName, decl, readTable, made, same⟩ := exists_ofDecl_of_build built known
  have sound := TableSchema.isSound_of_ofDecl made
  rw [same] at own ⊢
  exact ⟨own, sound.delimited, sound.named, sound.apart, sound.leaves⟩

/-- The schema of some modules; it has no tables if there is a fault in them. -/
def ofModules [PatternReader] (modules : List ModuleDecl) : Schema :=
  match build modules usualDelimiter with
  | .ok schema => schema
  | .error _ => ⟨∅⟩

/-- A schema without faults is built of all its modules. -/
theorem build_eq_ofModules [PatternReader] {modules : List ModuleDecl}
    (faultless : (build modules usualDelimiter).isOk) :
    build modules usualDelimiter = .ok (ofModules modules) := by
  unfold ofModules
  cases built : build modules usualDelimiter with
  | ok schema => rfl
  | error fault =>
      rw [built] at faultless
      cases faultless

/-- The tables of a sound schema are those that it knows by their names. -/
theorem IsSound.mem_values_iff {schema : Schema} (sound : schema.IsSound) {table : TableSchema} :
    table ∈ schema.tables.values ↔ schema.table? table.name = some table := by
  rw [ByName.mem_values_iff]
  exact ⟨fun ⟨name, stored⟩ => (sound name table stored).1.symm ▸ stored, fun known => ⟨_, known⟩⟩

/-- Of tables looked through one after another for the owner of a key, the one that was found is the one
of the longest name so far. -/
theorem foldl_longerName {key : String} {tables : List TableSchema} {found : Option (TableSchema × String)}
    (looked : tables.foldl (fun found table =>
      match table.rowKey? key with
      | none => found
      | some rowKey =>
        match found with
        | none => some (table, rowKey)
        | some earlier => some (longerName earlier (table, rowKey))) none = found) :
    (found = none → ∀ table ∈ tables, table.rowKey? key = none) ∧
      ∀ owner rowKey, found = some (owner, rowKey) → owner ∈ tables ∧
        owner.rowKey? key = some rowKey ∧ ∀ table ∈ tables, (table.rowKey? key).isSome →
          table.name.utf8ByteSize ≤ owner.name.utf8ByteSize := by
  induction tables using List.reverseRecOn generalizing found with
  | nil =>
      cases looked
      exact ⟨fun _ _ member => absurd member List.not_mem_nil, nofun⟩
  | append_singleton tables last ih =>
      rw [List.foldl_append, List.foldl_cons, List.foldl_nil] at looked
      obtain ⟨missed, longest⟩ := ih rfl
      generalize tables.foldl _ none = before at looked missed longest
      simp only [List.forall_mem_append, List.forall_mem_singleton]
      cases own : last.rowKey? key with
      | none =>
          simp only [own] at looked
          subst looked
          refine ⟨fun none => ⟨missed none, rfl⟩, fun owner rowKey some => ?_⟩
          obtain ⟨member, covers, least⟩ := longest owner rowKey some
          exact ⟨List.mem_append_left _ member, covers, least, nofun⟩
      | some rowKey =>
          simp only [own] at looked
          rcases before with _ | ⟨owner, ownerKey⟩
          · subst looked
            refine ⟨nofun, ?_⟩
            rintro _ _ ⟨⟩
            refine ⟨List.mem_concat_self, own, fun table member covers => ?_, fun _ => Nat.le_refl _⟩
            rw [missed rfl table member] at covers
            cases covers
          · obtain ⟨member, covers, least⟩ := longest owner ownerKey rfl
            subst looked
            refine ⟨nofun, fun _ _ longer => ?_⟩
            rw [Option.some.injEq, longerName] at longer
            split at longer
            · next within =>
                cases longer
                exact ⟨List.mem_concat_self, own, fun table member covers =>
                  Nat.le_trans (least table member covers) within, fun _ => Nat.le_refl _⟩
            · next without =>
                cases longer
                exact ⟨List.mem_append_left _ member, covers, least, fun _ => Nat.le_of_not_le without⟩

/-- The table that owns a key is one of the schema, and the key is one of its store keys. -/
theorem splitStoreKey_sound {schema : Schema} (sound : schema.IsSound) {key rowKey : String}
    {table : TableSchema} (owned : schema.splitStoreKey key = some (table, rowKey)) :
    schema.table? table.name = some table ∧ table.rowKey? key = some rowKey := by
  obtain ⟨member, covers, _⟩ := (foldl_longerName owned).2 table rowKey rfl
  exact ⟨sound.mem_values_iff.mp member, covers⟩

end Schema

end ConfigVetting
