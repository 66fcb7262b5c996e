import ConfigVetting.Proofs.Document.ReadingBack
import ConfigVetting.Proofs.Text.Members

/-! # Rows through documents and back

Rows in one canonical form are read back from their document as they were
(`ConfigVetting.Document.toRows_ofRows`): no text refers to another row, leaf-lists are spelled as such
and hold trimmed members, and a row without fields is written with the placeholder.
-/

namespace ConfigVetting

/-- Whether a text is a reference to a row: a table and a key with a bar between them, in brackets. -/
def IsReference (value : String) : Prop :=
  ∃ table key : String, isName table.toList = true ∧ '\n' ∉ key.toList ∧
    value = "[" ++ table ++ "|" ++ key ++ "]"

/-- A text that is no reference stands for itself. -/
theorem referenced_of_not_isReference {value : String} (plain : ¬IsReference value) :
    referenced value = value := by
  unfold referenced
  split
  · next table key cut =>
    refine if_neg fun isReference => plain ?_
    rw [Bool.and_eq_true, Bool.not_eq_true', List.contains_eq_mem, decide_eq_false_iff_not]
      at isReference
    obtain ⟨inner, between, found⟩ := Option.bind_eq_some_iff.mp cut
    obtain ⟨rest, start, stop⟩ := Option.bind_eq_some_iff.mp between
    obtain ⟨reversed, ended, rfl⟩ := Option.map_eq_some_iff.mp stop
    have whole := Text.afterStartChars_eq_some_iff.mp start
    have back := Text.afterStartChars_eq_some_iff.mp ended
    have parts := Text.eq_append_of_cutChars found
    have last : rest = reversed.reverse ++ [']'] := by
      rw [← List.reverse_reverse rest, back, List.reverse_append]
      rfl
    refine ⟨String.ofList table, String.ofList key, ?_, ?_, ?_⟩
    · rw [String.toList_ofList]
      exact isReference.1
    · rw [String.toList_ofList]
      exact isReference.2
    · rw [← String.toList_inj, whole, last, parts]
      simp
  · rfl

/-- A reference stands for its key, and not for itself. -/
theorem IsReference.referenced_ne {value : String} (reference : IsReference value) :
    referenced value ≠ value := by
  obtain ⟨table, key, named, oneLine, rfl⟩ := reference
  have plain : ¬['|'] <:+: table.toList := by
    intro bar
    rw [isName, Bool.and_eq_true, List.all_eq_true] at named
    exact absurd (named.2 '|' (bar.subset (List.mem_singleton_self _))) (by decide)
  have part : Text.IsPart ['|'] table.toList := by
    refine Text.isPart_of_not_infix ?_ plain
    rintro ⟨border, filled, proper, starts, _⟩
    have short := starts.length_le
    have some := List.length_pos_of_ne_nil filled
    exact proper (starts.eq_of_length (Nat.le_antisymm short some))
  have between : KeySegment.between ['['] [']'] ("[" ++ table ++ "|" ++ key ++ "]").toList =
      some (table.toList ++ (['|'] ++ key.toList)) := by
    simp [KeySegment.between, Text.afterStartChars]
  have short : referenced ("[" ++ table ++ "|" ++ key ++ "]") = key := by
    rw [referenced, between, Option.bind_some, Text.cutChars_of_isPart part]
    simp only
    rw [if_pos, String.ofList_toList]
    rw [named, Bool.true_and, Bool.not_eq_true', List.contains_eq_mem, decide_eq_false_iff_not]
    exact oneLine
  rw [short]
  intro same
  have lengths := congrArg String.length same
  simp only [String.length_append] at lengths
  have bracket : "[".length = 1 := rfl
  omega

instance (value : String) : Decidable (IsReference value) :=
  decidable_of_iff (referenced value ≠ value)
    ⟨fun changed => not_not.mp fun plain => changed (referenced_of_not_isReference plain),
      IsReference.referenced_ne⟩

/-- A list of trimmed members between commas is the list of these members. -/
theorem listMembers_of_trimmed {value : String}
    (trimmed : ∀ member ∈ Text.split "," value,
      Text.allBlank member = false ∧ Text.trim member = member) :
    listMembers value = Text.split "," value := by
  have same : (Text.split "," value).map Text.trim = (Text.split "," value).map id :=
    List.map_congr_left fun member inside => (trimmed member inside).2
  rw [listMembers, same, List.map_id, List.filter_eq_self]
  intro member inside
  rw [Bool.not_eq_true', String.isEmpty_eq_false_iff]
  rintro rfl
  cases (trimmed "" inside).1

private theorem joinWith_split (value : String) : Text.joinWith "," (Text.split "," value) = value := by
  have same : String.toList ∘ String.ofList = id := funext fun _ => String.toList_ofList
  rw [← String.toList_inj, Text.joinWith, String.toList_intercalate, Text.split, List.map_map, same,
    List.map_id]
  exact Text.intercalate_splitChars _ _ _

private theorem split_ne_nil (value : String) : Text.split "," value ≠ [] := by
  rw [Text.split, Ne, List.map_eq_nil_iff]
  exact Text.splitChars_ne_nil _ _ _

namespace TableSchema

variable {table : TableSchema} {fields : Fields}

/-- Whether a field of a row of an ordinary table is written in the form it is read back in. -/
structure WritesField (table : TableSchema) (name value : String) : Prop where
  /-- The field is no component of the key. -/
  noKey : table.isKey (baseName name) = false
  /-- A leaf-list is spelled as such. -/
  spelled : table.isLeafList name = true → (Text.beforeLast listMark name).isSome
  /-- The members of a list are not blank, trimmed and no references. -/
  members : (Text.beforeLast listMark name).isSome → ∀ member ∈ Text.split "," value,
    Text.allBlank member = false ∧ Text.trim member = member ∧ ¬IsReference member

/-- Whether a row is written in the form that it is read back in. -/
structure IsCanonical (table : TableSchema) (fields : Fields) : Prop where
  /-- The placeholder stands alone, and only for a row without fields. -/
  filled : fields = (∅ : Fields).insert placeholder placeholder ∨
    fields ≠ ∅ ∧ fields[placeholder]? = none
  /-- No value is a reference. -/
  plain : ∀ name value : String, fields[name]? = some value → ¬IsReference value
  /-- The fields of an ordinary table are written as they are read back. -/
  ordinary : table.mapLeaves = none → ∀ name value : String, fields[name]? = some value →
    table.WritesField name value
  /-- The leaves of an entry are told apart. -/
  entries : ∀ leaves ∈ table.mapLeaves, leaves.1 ≠ leaves.2

instance (table : TableSchema) (name value : String) : Decidable (table.WritesField name value) :=
  decidable_of_iff (table.isKey (baseName name) = false ∧
      (table.isLeafList name = true → (Text.beforeLast listMark name).isSome) ∧
      ((Text.beforeLast listMark name).isSome → ∀ member ∈ Text.split "," value,
        Text.allBlank member = false ∧ Text.trim member = member ∧ ¬IsReference member))
    ⟨fun ⟨noKey, spelled, members⟩ => ⟨noKey, spelled, members⟩,
      fun ⟨noKey, spelled, members⟩ => ⟨noKey, spelled, members⟩⟩

instance (table : TableSchema) (fields : Fields) : Decidable (table.IsCanonical fields) :=
  decidable_of_iff ((fields = (∅ : Fields).insert placeholder placeholder ∨
      fields ≠ ∅ ∧ fields[placeholder]? = none) ∧
      (∀ field ∈ fields.toList, ¬IsReference field.2 ∧
        (table.mapLeaves = none → table.WritesField field.1 field.2)) ∧
      ∀ leaves ∈ table.mapLeaves, leaves.1 ≠ leaves.2)
    ⟨fun ⟨filled, written, entries⟩ =>
      ⟨filled, fun name value held => (written (name, value)
        (Std.ExtTreeMap.mem_toList_iff_getElem?_eq_some.mpr held)).1,
        fun ordinary name value held =>
          (written (name, value) (Std.ExtTreeMap.mem_toList_iff_getElem?_eq_some.mpr held)).2
            ordinary, entries⟩,
      fun ⟨filled, plain, ordinary, entries⟩ =>
        ⟨filled, fun _ member => ⟨plain _ _ (Std.ExtTreeMap.mem_toList_iff_getElem?_eq_some.mp
          member), fun mapped =>
          ordinary mapped _ _ (Std.ExtTreeMap.mem_toList_iff_getElem?_eq_some.mp member)⟩, entries⟩⟩

/-- Of a row with only the placeholder nothing is read back. -/
theorem readBack?_onlyPlaceholder (table : TableSchema) (text name : String) :
    table.readBack? ((∅ : Fields).insert placeholder text) name = none := by
  have only : ∀ other value : String, ((∅ : Fields).insert placeholder text)[other]? = some value →
      other = placeholder := by
    intro other value held
    rw [ByName.getElem?_insert] at held
    split at held
    · next same => exact same.symm
    · cases held
  have plain : ((∅ : Fields).insert placeholder text)[name]?.bind (table.plainText? name) = none :=
    Option.bind_eq_none_iff.mpr fun value held => if_pos (only name value held)
  cases marked : Text.beforeLast listMark name with
  | none => rw [readBack?_of_unmarked marked, plain]
  | some base =>
      obtain rfl : name = listSpelling base := Text.beforeLast_eq_some_iff.mp marked
      have nothing : table.gathered ((∅ : Fields).insert placeholder text) base = [] := by
        refine List.append_eq_nil_iff.mpr ⟨?_, ?_⟩
        · exact List.flatMap_eq_nil_iff.mpr fun value held =>
            if_neg fun all => all.1 (only _ value (Option.mem_toList.mp held))
        · exact List.flatMap_eq_nil_iff.mpr fun value held =>
            if_neg fun all => all.1 (only _ value (Option.mem_toList.mp held))
      rw [readBack?_listSpelling, if_pos nothing, plain]

/-- The members of a leaf-list in a canonical row are those of its text in the list spelling. -/
theorem IsCanonical.gathered_eq (canonical : table.IsCanonical fields)
    (standsAlone : fields[placeholder]? = none) (base : String) :
    table.gathered fields base =
      if table.mapLeaves = none then
        fields[listSpelling base]?.toList.flatMap fun value => Text.split "," value
      else [] := by
  cases mapped : table.mapLeaves with
  | some leaves =>
      rw [if_neg nofun]
      have nothing : ∀ name value, table.memberTexts base name value = [] := fun name value =>
        if_neg fun all => by rw [mapped] at all; cases all.2.1
      simp [gathered, nothing]
  | none =>
      have first : (fields[base]?.toList.flatMap fun value => table.memberTexts base base value) =
          [] := by
        refine List.flatMap_eq_nil_iff.mpr fun value held => if_neg fun all => ?_
        have written := canonical.ordinary mapped base value (Option.mem_toList.mp held)
        obtain ⟨_, _, own, _, listed⟩ := all
        have marked := listed.elim id written.spelled
        rw [beforeLast_eq_none own] at marked
        cases marked
      have second : ∀ value ∈ fields[listSpelling base]?.toList,
          table.memberTexts base (listSpelling base) value = Text.split "," value := by
        intro value held
        have stored : fields[listSpelling base]? = some value := Option.mem_toList.mp held
        have written := canonical.ordinary mapped _ value stored
        have marked : (Text.beforeLast listMark (listSpelling base)).isSome := by
          rw [beforeLast_listSpelling]
          rfl
        have members := written.members marked
        have different : listSpelling base ≠ placeholder := by
          intro same
          rw [same, standsAlone] at stored
          cases stored
        have key := written.noKey
        rw [baseName_listSpelling] at key
        refine (if_pos ⟨different, mapped, baseName_listSpelling base, key, Or.inl marked⟩).trans ?_
        rw [listMembers_of_trimmed fun member inside =>
          ⟨(members member inside).1, (members member inside).2.1⟩]
        have same : (Text.split "," value).map referenced = (Text.split "," value).map id :=
          List.map_congr_left fun member inside =>
            referenced_of_not_isReference (members member inside).2.2
        rw [same, List.map_id]
      rw [if_pos rfl, gathered, first, List.nil_append]
      exact List.flatMap_congr second

/-- A field of a canonical row is read back as it was. -/
theorem IsCanonical.readBack?_eq (canonical : table.IsCanonical fields)
    (standsAlone : fields[placeholder]? = none) (name : String) :
    table.readBack? fields name = fields[name]? := by
  have plain : (Text.beforeLast listMark name = none ∨ table.mapLeaves ≠ none) →
      fields[name]?.bind (table.plainText? name) = fields[name]? := by
    intro ordinary
    cases held : fields[name]? with
    | none => rfl
    | some value =>
        have different : name ≠ placeholder := by
          rintro rfl
          rw [standsAlone] at held
          cases held
        have same := referenced_of_not_isReference (canonical.plain name value held)
        rw [Option.bind_some, plainText?, if_neg different]
        cases mapped : table.mapLeaves with
        | some leaves =>
            simp only
            rw [if_neg (canonical.entries leaves mapped), same]
        | none =>
            have unmarked := ordinary.resolve_right (not_not_intro mapped)
            have written := canonical.ordinary mapped name value held
            have noList : ¬table.isLeafList name = true := fun listed => by
              have marked := written.spelled listed
              rw [unmarked] at marked
              cases marked
            have noKey := written.noKey
            rw [baseName_of_unmarked unmarked] at noKey
            simp [unmarked, noList, noKey, same]
  cases marked : Text.beforeLast listMark name with
  | none => rw [readBack?_of_unmarked marked, plain (Or.inl marked)]
  | some base =>
      obtain rfl : name = listSpelling base := Text.beforeLast_eq_some_iff.mp marked
      rw [readBack?_listSpelling, canonical.gathered_eq standsAlone]
      cases mapped : table.mapLeaves with
      | some leaves =>
          have entries : ¬some leaves = none := nofun
          rw [if_neg entries, if_pos rfl, plain (Or.inr (by rw [mapped]; exact entries))]
      | none =>
          rw [if_pos rfl]
          cases held : fields[listSpelling base]? with
          | none => rfl
          | some value =>
              rw [Option.toList_some, List.flatMap_singleton, if_neg (split_ne_nil value),
                joinWith_split]

/-- A canonical row is read back as it was. -/
theorem IsCanonical.settled_eq (canonical : table.IsCanonical fields) :
    table.settled fields = fields := by
  rcases canonical.filled with rfl | ⟨some, standsAlone⟩
  · exact settled_of_none (table.readBack?_onlyPlaceholder placeholder)
  · have there : ∃ name text : String, fields[name]? = Option.some text := by
      by_contra none
      push Not at none
      refine some (Std.ExtTreeMap.ext_getElem? fun name => ?_)
      rw [Option.eq_none_iff_forall_ne_some.mpr (none name)]
      rfl
    obtain ⟨name, text, held⟩ := there
    refine Std.ExtTreeMap.ext_getElem? fun other => ?_
    rw [getElem?_settled ((canonical.readBack?_eq standsAlone name).trans held),
      canonical.readBack?_eq standsAlone]

end TableSchema

/-- Whether rows are those of a table of a schema with single-valued keys, each key split by the table
and each row in the form it is read back in. -/
structure TableSchema.Restores (schema : Schema) (table : TableSchema) (rows : KeyedRows) : Prop where
  known : schema.table? table.name = some table
  single : table.IsSingle
  split : ∀ rowKey fields, rows[rowKey]? = some fields →
    ∃ components, table.splitKey rowKey = some components
  canonical : ∀ (rowKey : String) fields, rows[rowKey]? = some fields → table.IsCanonical fields

namespace TableSchema.Restores

variable {schema : Schema} {table : TableSchema} {rows : KeyedRows}

private theorem reads (restores : table.Restores schema rows) (sound : schema.IsSound) :
    table.Reads schema rows where
  known := restores.known
  named := (sound _ _ restores.known).2.named
  single := restores.single
  split := restores.split

end TableSchema.Restores

/-- **Round trip.** Rows of any tables with single-valued keys, each key split by its table and each
row canonical, are made into a document that reads back to the same rows. -/
theorem Document.toRows_ofRows [PatternReader] {modules : List ModuleDecl} {delimiter : String}
    {schema : Schema}
    (built : Schema.build modules delimiter = .ok schema) {rows : TableRows}
    (restores : ∀ (name : String) keyed, rows[name]? = some keyed →
      ∃ table : TableSchema, table.name = name ∧ table.Restores schema keyed) :
    ∃ document, ofRows schema rows = .ok document ∧ document.toRows schema = .ok rows := by
  have sound := Schema.isSound_of_build built
  have areRead : Forest.AreRead schema rows := fun name keyed held => by
    obtain ⟨table, named, own⟩ := restores name keyed held
    exact ⟨table, named, own.reads sound⟩
  obtain ⟨forest, made, shaped, found⟩ := Forest.ofRows_spec areRead
  refine ⟨ofForest forest, Except.map_eq_ok_iff.mpr ⟨forest, made, rfl⟩, ?_⟩
  rw [toRows_trees, trees_ofForest, Forest.bare_tree]
  refine shaped.toRows_eq_ok (fun name keyed held => ?_) (fun table known =>
    Forest.isSome_reach?_place_of_ofRows sound made shaped known) fun table known key => ?_
  · obtain ⟨table, named, own⟩ := restores name keyed held
    exact ⟨table, named, named ▸ own.known⟩
  · rw [found table known, Option.map_map, TableRows.keyed]
    cases held : rows[table.name]? with
    | none => rfl
    | some keyed =>
        obtain ⟨again, named, own⟩ := restores table.name keyed held
        cases Schema.eq_of_name_eq own.known known named
        rw [Option.getD_some]
        cases row : keyed[key]? with
        | none => rfl
        | some fields =>
            exact congrArg some ((table.instanceFields_rowNode key fields).trans
              (own.canonical key fields row).settled_eq)

/-- A module with a table of ports and a table of entries. -/
def portsAndQueues : List ModuleDecl :=
  [{ name := "m", tables := [
    { name := "PORT", keyPattern := "PORT|\x7bname\x7d"
      leaves := [{ name := "mtu" }, { name := "lanes", isList := true }] },
    { name := "QUEUE", keyPattern := "QUEUE|\x7bname\x7d|\x7bnumber\x7d"
      mapLeaves := some ["from", "to"] }] }]

/-- Rows of these tables, one of them without fields. -/
def portAndQueueRows : TableRows :=
  ((((∅ : TableRows).put "PORT" "x"
    (((∅ : Fields).insert "mtu" "9100").insert "lanes@" "1,2")).put "PORT" "y"
    ((∅ : Fields).insert "NULL" "NULL")).put "QUEUE" "x|3"
    (((∅ : Fields).insert "0" "4").insert "1" "5")).put "QUEUE" "y|3"
    ((∅ : Fields).insert "NULL" "NULL")

/-- Rows of two tables are read back as they were. -/
theorem Document.toRows_ofRows_portAndQueue :
    let schema := Schema.ofModules portsAndQueues
    (∀ (name : String) keyed, portAndQueueRows[name]? = some keyed →
      ∃ table : TableSchema, table.name = name ∧ table.Restores schema keyed) ∧
    ∃ document, ofRows schema portAndQueueRows = .ok document ∧
      document.toRows schema = .ok portAndQueueRows := by
  intro schema
  have facts : ∀ entry ∈ portAndQueueRows.toList, (schema.table? entry.1).any fun table =>
      table.name = entry.1 ∧ table.IsSingle ∧ ∀ row ∈ entry.2.toList,
        (table.splitKey row.1).isSome ∧ table.IsCanonical row.2 := by
    decide +kernel
  have restores : ∀ (name : String) keyed, portAndQueueRows[name]? = some keyed →
      ∃ table : TableSchema, table.name = name ∧ table.Restores schema keyed := by
    intro name keyed held
    obtain ⟨table, known, own⟩ := (Option.any_eq_true _ _).mp
      (facts (name, keyed) (Std.ExtTreeMap.mem_toList_iff_getElem?_eq_some.mpr held))
    obtain ⟨rfl, single, rows⟩ := of_decide_eq_true own
    refine ⟨table, rfl, known, single, fun rowKey fields row => ?_, fun rowKey fields row => ?_⟩
    · exact Option.isSome_iff_exists.mp (rows _ (Std.ExtTreeMap.mem_toList_iff_getElem?_eq_some.mpr row)).1
    · exact (rows _ (Std.ExtTreeMap.mem_toList_iff_getElem?_eq_some.mpr row)).2
  exact ⟨restores, toRows_ofRows (Schema.build_eq_ofModules (by decide +kernel)) restores⟩

end ConfigVetting
