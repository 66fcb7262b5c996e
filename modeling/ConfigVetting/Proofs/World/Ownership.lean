import ConfigVetting.Proofs.Document.Shape
import ConfigVetting.Proofs.Schema.Tables
import ConfigVetting.Proofs.Session.Grouping
import ConfigVetting.Proofs.Text.Parts
import ConfigVetting.Proofs.World.StoredRows
import Mathlib.Data.List.Induction

/-! # Whose keys the stored ones are

Edits and notifications look for the table of a store key: of those whose name and delimiter the key
starts with, the one with the longest name. Reads and counts take all keys from the start of a table on.
Both agree on a table exactly if it shares no keys with a table of a longer name
(`ConfigVetting.Schema.readsOwnKeys_iff`). Tables with the same delimiter never share any, for a name ends
where its pattern has the delimiter first (`ConfigVetting.TableSchema.name_eq_of_sharesKeys`).
-/

namespace ConfigVetting

/-- Two beginnings of a text that take as many bytes are the same. -/
theorem Text.eq_of_starts {first second text : String} (starts : first.toList <+: text.toList)
    (otherStarts : second.toList <+: text.toList)
    (sized : first.utf8ByteSize = second.utf8ByteSize) : first = second := by
  have nothing : ∀ {shorter longer : String}, shorter.toList <+: longer.toList →
      shorter.utf8ByteSize = longer.utf8ByteSize → shorter = longer := by
    rintro shorter longer ⟨rest, whole⟩ same
    have split : longer = shorter ++ String.ofList rest := by
      rw [← String.toList_inj, String.toList_append, String.toList_ofList, whole]
    rw [split, String.utf8ByteSize_append] at same
    have empty : (String.ofList rest).utf8ByteSize = 0 := by omega
    rw [split, String.utf8ByteSize_eq_zero_iff.mp empty, String.append_empty]
  rcases List.prefix_or_prefix_of_prefix starts otherStarts with inside | inside
  · exact nothing inside sized
  · exact (nothing inside sized.symm).symm

/-- The name of a table ends where its pattern has the delimiter first. -/
theorem KeyPattern.IsWritten.isPart {table delimiter pattern : String} {segments : List KeySegment}
    (written : IsWritten table delimiter pattern segments) :
    Text.IsPart delimiter.toList table.toList := by
  obtain ⟨first, others, whole, named, rest⟩ := List.map_eq_cons_iff.mp written.parts
  have more : others ≠ [] := by
    rintro rfl
    exact written.filled (List.map_eq_nil_iff.mp rest.symm)
  have inside : first ∈ (Text.splitChars delimiter.toList pattern.toList.length
      pattern.toList).dropLast := by
    rw [whole, List.dropLast_cons_of_ne_nil more]
    exact List.mem_cons_self
  rw [← named, String.toList_ofList]
  exact Text.isPart_of_mem_splitChars first inside

namespace TableSchema

/-- Whether the name of a table ends where its delimiter first comes. -/
def IsDelimited (table : TableSchema) : Prop :=
  Text.IsPart table.keyDelimiter.toList table.name.toList

private theorem isDelimited_of_ofDecl [PatternReader] {moduleName delimiter : String} {decl : TableDecl}
    {table : TableSchema} (read : ofDecl moduleName delimiter decl = .ok table) :
    table.IsDelimited := by
  obtain ⟨_, _, _, _, written⟩ := isWritten_of_ofDecl read
  exact written.isPart

/-- Whether a key can be one of either table, as far as its beginning goes. -/
def SharesKeys (table other : TableSchema) : Prop :=
  ∃ rowKey otherKey, table.storeKey rowKey = other.storeKey otherKey

/-- Tables share keys exactly if the start of one of them starts that of the other. -/
theorem sharesKeys_iff {table other : TableSchema} :
    table.SharesKeys other ↔ table.storeStart.toList <+: other.storeStart.toList ∨
      other.storeStart.toList <+: table.storeStart.toList := by
  constructor
  · rintro ⟨rowKey, otherKey, same⟩
    have starts := List.isPrefixOf_iff_prefix.mp (table.startsWith_storeKey rowKey)
    rw [same] at starts
    exact List.prefix_or_prefix_of_prefix starts
      (List.isPrefixOf_iff_prefix.mp (other.startsWith_storeKey otherKey))
  · have reached : ∀ {shorter longer : TableSchema},
        shorter.storeStart.toList <+: longer.storeStart.toList →
          ∃ rowKey, shorter.storeKey rowKey = longer.storeKey "" := by
      rintro shorter longer ⟨rest, whole⟩
      refine ⟨String.ofList rest, ?_⟩
      rw [← String.toList_inj, storeKey, storeKey, String.toList_append, String.toList_ofList, whole,
        String.append_empty]
    rintro (inside | inside)
    · obtain ⟨rowKey, same⟩ := reached inside
      exact ⟨rowKey, "", same⟩
    · obtain ⟨otherKey, same⟩ := reached inside
      exact ⟨"", otherKey, same.symm⟩

instance (table other : TableSchema) : Decidable (table.SharesKeys other) :=
  decidable_of_iff _ sharesKeys_iff.symm

/-- The name of a table starts its keys. -/
theorem name_prefix_storeKey (table : TableSchema) (rowKey : String) :
    table.name.toList <+: (table.storeKey rowKey).toList := by
  rw [storeKey, storeStart, String.toList_append, String.toList_append, List.append_assoc]
  exact List.prefix_append _ _

/-- Tables with the same delimiter that share keys have the same name. -/
theorem name_eq_of_sharesKeys {table other : TableSchema} (delimited : table.IsDelimited)
    (otherDelimited : other.IsDelimited) (same : table.keyDelimiter = other.keyDelimiter)
    (shares : table.SharesKeys other) : table.name = other.name := by
  obtain ⟨rowKey, otherKey, equal⟩ := shares
  have cut : ∀ {one : TableSchema}, one.IsDelimited → ∀ rowKey : String,
      Text.cutChars one.keyDelimiter.toList (one.storeKey rowKey).toList =
        some (one.name.toList, rowKey.toList) := by
    intro one isPart rowKey
    rw [storeKey, storeStart, String.toList_append, String.toList_append, List.append_assoc]
    exact Text.cutChars_of_isPart isPart rowKey.toList
  have cuts := cut otherDelimited otherKey
  rw [← same, ← equal, cut delimited rowKey] at cuts
  exact String.toList_inj.mp (congrArg Prod.fst (Option.some.inj cuts))

end TableSchema

namespace Schema

variable {schema : Schema} {table : TableSchema} {key rowKey : String}

private theorem isDelimited_of_build [PatternReader] {modules : List ModuleDecl} {delimiter : String}
    (built : build modules delimiter = .ok schema) {name : String}
    (known : schema.table? name = some table) : table.IsDelimited := by
  obtain ⟨_, moduleName, decl, readTable, made, same⟩ := exists_ofDecl_of_build built known
  have delimited := TableSchema.isDelimited_of_ofDecl made
  rw [same]
  exact delimited

/-- A table owns a key exactly if the key starts with its start, and with that of no table of a longer
name. -/
theorem splitStoreKey_eq_some_iff (sound : schema.IsSound)
    (known : schema.table? table.name = some table) :
    schema.splitStoreKey key = some (table, rowKey) ↔ table.rowKey? key = some rowKey ∧
      ∀ other, schema.table? other.name = some other → (other.rowKey? key).isSome →
        other.name.utf8ByteSize ≤ table.name.utf8ByteSize := by
  obtain ⟨missed, longest⟩ :=
    foldl_longerName (rfl : schema.splitStoreKey key = schema.splitStoreKey key)
  constructor
  · intro split
    obtain ⟨_, covers, longest⟩ := longest table rowKey split
    exact ⟨covers, fun other known => longest other (sound.mem_values_iff.mpr known)⟩
  · rintro ⟨own, least⟩
    cases split : schema.splitStoreKey key with
    | none =>
        rw [missed split table (sound.mem_values_iff.mpr known)] at own
        cases own
    | some owned =>
        obtain ⟨owner, ownerKey⟩ := owned
        obtain ⟨member, covers, longest⟩ := longest owner ownerKey split
        -- Both names start the key, and neither is longer.
        have sized := Nat.le_antisymm (longest table (sound.mem_values_iff.mpr known) (by rw [own]; rfl))
          (least owner (sound.mem_values_iff.mp member) (by rw [covers]; rfl))
        have starts := table.name_prefix_storeKey rowKey
        have ownerStarts := owner.name_prefix_storeKey ownerKey
        rw [← TableSchema.rowKey?_eq_some_iff.mp own] at starts
        rw [← TableSchema.rowKey?_eq_some_iff.mp covers] at ownerStarts
        cases eq_of_name_eq known (sound.mem_values_iff.mp member)
          (Text.eq_of_starts starts ownerStarts sized)
        cases own.symm.trans covers
        rfl

/-- Whether the keys from the start of a table on are, in every store, those that the schema gives the
table, with the same row keys. -/
structure ReadsOwnKeys (schema : Schema) (table : TableSchema) : Prop where
  listed : ∀ (rows : ByName Fields) (key rowKey : String),
    key ∈ Store.keysFrom table.storeStart rows.keys ∧ table.rowKey? key = some rowKey ↔
      key ∈ rows ∧ schema.splitStoreKey key = some (table, rowKey)
  fetched : ∀ (rows : ByName Fields) (rowKey : String) (fields : Fields),
    (Store.tableRows table rows)[rowKey]? = some fields ↔
      ∃ key : String, rows[key]? = some fields ∧ schema.splitStoreKey key = some (table, rowKey)
  rejoined : ∀ rowKey, schema.splitStoreKey (table.storeKey rowKey) = some (table, rowKey)

private theorem readsOwnKeys_of_rejoined (sound : schema.IsSound)
    (rejoined : ∀ rowKey, schema.splitStoreKey (table.storeKey rowKey) = some (table, rowKey)) :
    schema.ReadsOwnKeys table where
  listed rows key rowKey := by
    rw [Store.mem_keysFrom_iff (Store.ordered_keys rows), Std.ExtTreeMap.mem_keys]
    constructor
    · rintro ⟨⟨stored, _⟩, own⟩
      rw [TableSchema.rowKey?_eq_some_iff.mp own] at stored ⊢
      exact ⟨stored, rejoined rowKey⟩
    · rintro ⟨stored, owned⟩
      have own := (splitStoreKey_sound sound owned).2
      cases TableSchema.rowKey?_eq_some_iff.mp own
      exact ⟨⟨stored, table.startsWith_storeKey rowKey⟩, own⟩
  fetched rows rowKey fields := by
    rw [Store.getElem?_tableRows]
    constructor
    · exact fun stored => ⟨_, stored, rejoined rowKey⟩
    · rintro ⟨key, stored, owned⟩
      rwa [← TableSchema.rowKey?_eq_some_iff.mp (splitStoreKey_sound sound owned).2]
  rejoined := rejoined

/-- **Owners of store keys.** In a schema that is built, reading from the start of a table finds the keys
that the schema gives the table exactly if no table of a longer name shares keys with it; and a table only
shares keys with one of another name that has another delimiter. -/
theorem readsOwnKeys_iff [PatternReader] {modules : List ModuleDecl} {delimiter : String}
    (built : build modules delimiter = .ok schema)
    (known : schema.table? table.name = some table) :
    (schema.ReadsOwnKeys table ↔ ∀ other, schema.table? other.name = some other →
        table.name.utf8ByteSize < other.name.utf8ByteSize → ¬ table.SharesKeys other) ∧
      ∀ other, schema.table? other.name = some other → other.name ≠ table.name →
        table.SharesKeys other → other.keyDelimiter ≠ table.keyDelimiter := by
  have sound := isSound_of_build built
  refine ⟨⟨fun reads other otherKnown longer shares => ?_, fun apart => ?_⟩,
    fun other otherKnown named shares same => ?_⟩
  · obtain ⟨rowKey, otherKey, equal⟩ := shares
    obtain ⟨_, least⟩ := (splitStoreKey_eq_some_iff sound known).mp (reads.rejoined rowKey)
    have covers := TableSchema.rowKey?_eq_some_iff.mpr equal
    exact absurd (least other otherKnown (by rw [covers]; rfl)) (Nat.not_le_of_lt longer)
  · refine readsOwnKeys_of_rejoined sound fun rowKey => (splitStoreKey_eq_some_iff sound known).mpr
      ⟨TableSchema.rowKey?_eq_some_iff.mpr rfl, fun other otherKnown covers => ?_⟩
    obtain ⟨otherKey, covers⟩ := Option.isSome_iff_exists.mp covers
    refine Nat.le_of_not_lt fun longer => apart other otherKnown longer ?_
    exact ⟨rowKey, otherKey, TableSchema.rowKey?_eq_some_iff.mp covers⟩
  · exact named (TableSchema.name_eq_of_sharesKeys (isDelimited_of_build built known)
      (isDelimited_of_build built otherKnown) same.symm shares).symm

/-- Two tables of which the one has all keys of the other that start with another delimiter. -/
def nestedModules : List ModuleDecl := [{ name := "m", tables := [
  { name := "A", keyPattern := "A|\x7ba\x7d" },
  { name := "A|B", keyPattern := "A|B#\x7bb\x7d", keyDelimiter := some "#" }] }]

/-- A key that reading a table finds is one of the other table. -/
theorem nestedModules_not_readsOwnKeys : ∃ schema table, build nestedModules usualDelimiter = .ok schema ∧
    schema.table? "A" = some table ∧ ¬ schema.ReadsOwnKeys table ∧
      Store.keysFrom table.storeStart ((∅ : ByName Fields).insert "A|B#x" ∅).keys = ["A|B#x"] ∧
      (schema.splitStoreKey "A|B#x").map (fun (owner, rowKey) => (owner.name, rowKey)) =
        some ("A|B", "x") := by
  have faultless : (build nestedModules usualDelimiter).isOk := by decide +kernel
  have built := build_eq_ofModules faultless
  have facts : ((ofModules nestedModules).table? "A").any fun table =>
      table.name = "A" ∧ table.storeKey "B#x" = "A|B#x" ∧
        Store.keysFrom table.storeStart ((∅ : ByName Fields).insert "A|B#x" ∅).keys = ["A|B#x"] := by
    decide +kernel
  have owner : ((ofModules nestedModules).splitStoreKey "A|B#x").map
      (fun (owner, rowKey) => (owner.name, rowKey)) = some ("A|B", "x") := by
    decide +kernel
  obtain ⟨table, known, holds⟩ := (Option.any_eq_true _ _).mp facts
  obtain ⟨named, joined, found⟩ := of_decide_eq_true holds
  refine ⟨_, table, built, known, fun reads => ?_, found, owner⟩
  have own := reads.rejoined "B#x"
  rw [joined] at own
  rw [own, Option.map_some, Option.some.injEq, Prod.mk.injEq, named] at owner
  exact absurd owner.1 (by decide)

/-- The table with the longer name reads its own keys. -/
theorem nestedModules_readsOwnKeys : ∃ schema table other,
    build nestedModules usualDelimiter = .ok schema ∧ schema.table? "A|B" = some table ∧
      schema.table? "A" = some other ∧ table.SharesKeys other ∧ schema.ReadsOwnKeys table := by
  have faultless : (build nestedModules usualDelimiter).isOk := by decide +kernel
  have built := build_eq_ofModules faultless
  have facts : ((ofModules nestedModules).table? "A|B").any fun table =>
      table.name = "A|B" ∧ (((ofModules nestedModules).table? "A").any fun other =>
        table.SharesKeys other) ∧
      ((ofModules nestedModules).tables.values.all fun other =>
        ¬ (table.name.utf8ByteSize < other.name.utf8ByteSize ∧ table.SharesKeys other)) := by
    decide +kernel
  obtain ⟨table, known, holds⟩ := (Option.any_eq_true _ _).mp facts
  obtain ⟨named, shared, apart⟩ := of_decide_eq_true holds
  obtain ⟨other, otherKnown, shares⟩ := (Option.any_eq_true _ _).mp shared
  refine ⟨_, table, other, built, known, otherKnown, of_decide_eq_true shares,
    (readsOwnKeys_iff built (named ▸ known)).1.mpr fun longer longerKnown larger shares => ?_⟩
  have member := (isSound_of_build built).mem_values_iff.mpr longerKnown
  exact of_decide_eq_true (List.all_eq_true.mp apart longer member) ⟨larger, shares⟩

end Schema

end ConfigVetting
