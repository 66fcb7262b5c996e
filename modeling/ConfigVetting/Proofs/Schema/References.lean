import ConfigVetting.DeleteIntegrity
import ConfigVetting.Proofs.Document.FieldNodes
import ConfigVetting.Proofs.Document.Trees
import ConfigVetting.Proofs.Schema.RowKeys
import Mathlib.Data.List.Nodup

/-! # Values that refer to keys

Where the values of a list instance come from: the key of its row, or one of its fields
(`ConfigVetting.TableSchema.mem_leafValues_instanceNode_iff`). The values by which deletes are checked
are among them, but for values of single-valued key components with commas or blanks at their ends,
which are taken for lists (`ConfigVetting.TableSchema.Says.mem_rowValues`).
-/

namespace ConfigVetting

namespace TableSchema

variable {table : TableSchema}

/-- Whether a list instance of a row has a value as a component of its key. -/
def KeyHolds (table : TableSchema) (rowKey field value : String) : Prop :=
  ∃ combinations, table.expandKey rowKey = .ok combinations ∧
    ∃ components ∈ combinations, (field, value) ∈ table.keyNames.zip components

/-- The values that one field of a row gives a leaf of its list instances. -/
def textValues (table : TableSchema) (name text field : String) : List String :=
  (Node.tree (.plain "" .list) (table.fieldNodes name text)).leafValues field

/-- Whether a list instance of a row has a value in a leaf directly below it. -/
def Says (table : TableSchema) (rowKey : String) (fields : Fields) (field value : String) : Prop :=
  ∃ combinations, table.expandKey rowKey = .ok combinations ∧
    ∃ components ∈ combinations, value ∈ (table.instanceNode fields components).leafValues field

/-- Whether an entry of a list instance of a row has a value in a leaf. -/
def Enters (table : TableSchema) (rowKey : String) (fields : Fields) (field value : String) : Prop :=
  ∃ combinations, table.expandKey rowKey = .ok combinations ∧
    ∃ components ∈ combinations, ∃ entry ∈ (table.instanceNode fields components).children,
      entry.kind = .list ∧ value ∈ entry.leafValues field

/-- Whether what is shown of the fields of a row is owed to one of them, whatever the others are. -/
def IsOwedToField (shown : Fields → Prop) (fields : Fields) : Prop :=
  ∃ name text, name ≠ placeholder ∧ fields[name]? = some text ∧
    ∀ others : Fields, others[name]? = some text → shown others

/-- A value of a leaf is a component of the key or comes from a field. -/
theorem mem_leafValues_instanceNode_iff {fields : Fields} {components : List String}
    {field value : String} :
    value ∈ (table.instanceNode fields components).leafValues field ↔
      (field, value) ∈ table.keyNames.zip components ∨
        ∃ name text, fields[name]? = some text ∧ value ∈ table.textValues name text field := by
  unfold textValues
  simp only [Node.mem_leafValues_iff]
  change (∃ child ∈ _ ++ _, _) ↔ _
  simp only [List.mem_append, or_and_right (c := _ ∧ _), exists_or]
  refine or_congr ?_ ?_
  · constructor
    · rintro ⟨child, inside, named, _, held⟩
      obtain ⟨component, member, rfl⟩ := List.mem_map.mp inside
      obtain ⟨name, own⟩ := component
      cases named
      cases held
      exact member
    · intro member
      exact ⟨_, List.mem_map.mpr ⟨(field, value), member, rfl⟩, rfl, Or.inl rfl, rfl⟩
  · constructor
    · rintro ⟨child, inside, found⟩
      obtain ⟨⟨name, text⟩, member, below⟩ := List.mem_flatMap.mp inside
      exact ⟨name, text, Std.ExtTreeMap.mem_toList_iff_getElem?_eq_some.mp member, child, below, found⟩
    · rintro ⟨name, text, held, child, below, found⟩
      exact ⟨child, List.mem_flatMap.mpr ⟨(name, text),
        Std.ExtTreeMap.mem_toList_iff_getElem?_eq_some.mpr held, below⟩,
        found⟩

/-- What a field gives a leaf: the leaf is that of the field and no component of the key, and the
values are the members of the field, or its text as a whole. -/
theorem of_mem_textValues {name text field value : String}
    (member : value ∈ table.textValues name text field) :
    baseName name = field ∧ table.isKey field = false ∧
      (((Text.beforeLast listMark name).isSome ∨ table.isLeafList name = true) ∧
          value ∈ (listMembers text).map referenced ∨
        name = field ∧ table.isLeafList name = false ∧ value = referenced text) := by
  obtain ⟨child, inside, named, kind, held⟩ := Node.mem_leafValues_iff.mp member
  change child ∈ table.fieldNodes name text at inside
  have becomes : table.Becomes name text (table.fieldNodes name text) := becomes_fieldNodes
  generalize table.fieldNodes name text = nodes at becomes inside
  cases becomes with
  | nothing => cases inside
  | entry =>
      cases List.mem_singleton.mp inside
      rcases kind with leaf | leafList
      · cases leaf
      · cases leafList
  | members _ _ notKey listed =>
      obtain ⟨one, memberOf, rfl⟩ := List.mem_map.mp inside
      cases held
      cases named
      exact ⟨rfl, notKey, Or.inl ⟨listed, List.mem_map_of_mem memberOf⟩⟩
  | leaf _ _ notKey unmarked single =>
      cases List.mem_singleton.mp inside
      cases held
      cases named
      exact ⟨baseName_of_unmarked unmarked, notKey, Or.inr ⟨rfl, single, rfl⟩⟩

/-- A value of a leaf that a field gives is among those by which deletes are checked, unless it is empty
as the single value of the field. -/
theorem mem_fieldValues {fields : Fields} {name text field value : String}
    (held : fields[name]? = some text) (member : value ∈ table.textValues name text field)
    (filled : table.isLeafList field = false → fields[field]? = some "" → value ≠ "") :
    value ∈ DeleteIntegrity.fieldValues table fields field := by
  obtain ⟨named, _, given⟩ := of_mem_textValues member
  unfold DeleteIntegrity.fieldValues
  rw [List.mem_append]
  cases marked : Text.beforeLast listMark name with
  | some before =>
      right
      have spelled : name = listSpelling field := by
        rw [← named, baseName, marked]
        exact Text.beforeLast_eq_some_iff.mp marked
      rw [← spelled, held]
      rcases given with ⟨_, inside⟩ | ⟨plain, _, _⟩
      · exact inside
      · rw [spelled] at plain
        have lengths := congrArg String.length plain
        simp [listSpelling] at lengths
  | none =>
      left
      have plain : name = field := (baseName_of_unmarked marked).symm.trans named
      subst plain
      rw [held]
      rcases given with ⟨listed, inside⟩ | ⟨_, single, rfl⟩
      · have isList : table.isLeafList name = true :=
          listed.resolve_left fun impossible => by simp [marked] at impossible
        simp only [isList, ↓reduceIte]
        exact inside
      · by_cases blank : text = ""
        · subst blank
          exact absurd rfl (filled single held)
        · simp [single, blank]

/-- A value of a leaf that is a component of the key stands in the key. -/
theorem Says.keyHolds {rowKey field value : String} {fields : Fields}
    (said : table.Says rowKey fields field value) (isKey : table.isKey field = true) :
    table.KeyHolds rowKey field value := by
  obtain ⟨combinations, expanded, components, chosen, member⟩ := said
  rcases mem_leafValues_instanceNode_iff.mp member with own | ⟨name, text, _, given⟩
  · exact ⟨combinations, expanded, components, chosen, own⟩
  · rw [(of_mem_textValues given).2.1] at isKey
    cases isKey

/-- A component of a key is said whatever the fields of the row are. -/
theorem KeyHolds.isSaid {rowKey field value : String} (holds : table.KeyHolds rowKey field value)
    (fields : Fields) : table.Says rowKey fields field value := by
  obtain ⟨combinations, expanded, components, chosen, member⟩ := holds
  exact ⟨combinations, expanded, components, chosen,
    mem_leafValues_instanceNode_iff.mpr (Or.inl member)⟩

/-- A value of a leaf stands in the key or is owed to a field. -/
theorem Says.keyHolds_or_isOwedToField {rowKey field value : String} {fields : Fields}
    (said : table.Says rowKey fields field value) :
    table.KeyHolds rowKey field value ∨
      IsOwedToField (fun others => table.Says rowKey others field value) fields := by
  obtain ⟨combinations, expanded, components, chosen, member⟩ := said
  rcases mem_leafValues_instanceNode_iff.mp member with own | ⟨name, text, held, given⟩
  · exact Or.inl ⟨combinations, expanded, components, chosen, own⟩
  · refine Or.inr ⟨name, text, ?_, held, fun others same => ⟨combinations, expanded, components,
      chosen, mem_leafValues_instanceNode_iff.mpr (Or.inr ⟨name, text, same, given⟩)⟩⟩
    rintro rfl
    cases given

/-- A value in a leaf of an entry is owed to the field that the entry is. -/
theorem Enters.isOwedToField {rowKey field value : String} {fields : Fields}
    (entered : table.Enters rowKey fields field value) :
    IsOwedToField (fun others => table.Enters rowKey others field value) fields := by
  obtain ⟨combinations, expanded, components, chosen, entry, inside, isList, held⟩ := entered
  rcases List.mem_append.mp inside with inKey | inFields
  · obtain ⟨_, _, rfl⟩ := List.mem_map.mp inKey
    cases isList
  · obtain ⟨⟨name, text⟩, member, below⟩ := List.mem_flatMap.mp inFields
    refine ⟨name, text, ?_, Std.ExtTreeMap.mem_toList_iff_getElem?_eq_some.mp member, fun others same =>
      ⟨combinations, expanded, components, chosen, entry, ?_, isList, held⟩⟩
    · rintro rfl
      cases below
    · exact List.mem_append_right _
        (List.mem_flatMap.mpr ⟨(name, text), Std.ExtTreeMap.mem_toList_iff_getElem?_eq_some.mpr
          same, below⟩)

/-- Only the rows of a table of entries have some. -/
theorem Enters.isSome_mapLeaves {rowKey field value : String} {fields : Fields}
    (entered : table.Enters rowKey fields field value) : table.mapLeaves.isSome := by
  obtain ⟨_, _, components, _, entry, inside, isList, _⟩ := entered
  rcases List.mem_append.mp inside with inKey | inFields
  · obtain ⟨_, _, rfl⟩ := List.mem_map.mp inKey
    cases isList
  · obtain ⟨⟨name, text⟩, _, below⟩ := List.mem_flatMap.mp inFields
    cases mapped : table.mapLeaves with
    | some leaves => rfl
    | none => exact absurd isList (becomes_fieldNodes.name_eq mapped below).1

/-- A component of a list instance is a value of the component of the row key at the place of its name. -/
theorem KeyHolds.exists_part (named : table.segments ≠ []) {rowKey field value : String}
    (holds : table.KeyHolds rowKey field value) :
    ∃ parts segment component, table.splitKey rowKey = some parts ∧
      (segment, component) ∈ table.segments.zip parts ∧ segment.name = field ∧
        value ∈ segment.values component := by
  obtain ⟨combinations, expanded, components, chosenOf, member⟩ := holds
  obtain ⟨parts, split, chosen⟩ := isChosen_of_expandKey named expanded chosenOf
  obtain ⟨position, placed⟩ := List.mem_iff_getElem?.mp member
  obtain ⟨nameAt, valueAt⟩ := List.getElem?_zip_eq_some.mp placed
  rw [keyNames, List.getElem?_map, Option.map_eq_some_iff] at nameAt
  obtain ⟨segment, segmentAt, named⟩ := nameAt
  have inParts : position < parts.length := by
    rw [chosen.count]
    exact (List.getElem?_eq_some_iff.mp segmentAt).1
  have own : (table.segments.zip parts)[position]? = some (segment, parts[position]) :=
    List.getElem?_zip_eq_some.mpr ⟨segmentAt, List.getElem?_eq_getElem inParts⟩
  refine ⟨parts, segment, parts[position], split, List.mem_iff_getElem?.mpr ⟨position, own⟩, named, ?_⟩
  refine (List.forall₂_iff_zip.mp chosen.chosen).2 (List.mem_iff_getElem?.mpr ⟨position, ?_⟩)
  exact List.getElem?_zip_eq_some.mpr ⟨valueAt, by rw [List.getElem?_map, own]; rfl⟩

/-- The list instances of a row have each value of a component of its key there. -/
theorem keyHolds_of_mem_values {rowKey : String} {combinations : List (List String)}
    (expanded : table.expandKey rowKey = .ok combinations) {parts : List String}
    (split : table.splitKey rowKey = some parts) {segment : KeySegment} {component value : String}
    (own : (segment, component) ∈ table.segments.zip parts) (member : value ∈ segment.values component) :
    table.KeyHolds rowKey segment.name value := by
  obtain ⟨_, again, filled, rfl⟩ := expandKey_eq_ok_iff.mp expanded
  cases split.symm.trans again
  obtain ⟨position, placed⟩ := List.mem_iff_getElem?.mp own
  have valuesAt : (table.componentValues parts)[position]? = some (segment.values component) := by
    rw [componentValues, List.getElem?_map, placed]
    rfl
  obtain ⟨components, chosen, valueAt⟩ := exists_mem_choices_of_mem filled valuesAt member
  refine ⟨_, expanded, components, chosen, List.mem_iff_getElem?.mpr ⟨position, ?_⟩⟩
  have segmentAt := (List.getElem?_zip_eq_some.mp placed).1
  exact List.getElem?_zip_eq_some.mpr ⟨by rw [keyNames, List.getElem?_map, segmentAt]; rfl, valueAt⟩

/-- A key has a position among the keys. -/
theorem exists_keyPosition? {field : String} (isKey : table.isKey field = true) :
    ∃ position, DeleteIntegrity.keyPosition? table field = some position := by
  rw [← Option.isSome_iff_exists, DeleteIntegrity.keyPosition?, List.findIdx?_isSome, List.any_eq_true]
  exact ⟨field, List.contains_iff_mem.mp isKey, decide_eq_true rfl⟩

/-- The place of a name among the components of a key is where its segment stands. -/
theorem mem_zip_iff_of_keyPosition? (apart : table.keyNames.Nodup) {field : String} {position : Nat}
    (placed : DeleteIntegrity.keyPosition? table field = some position) {parts : List String}
    {component : String} : (∃ segment, (segment, component) ∈ table.segments.zip parts ∧
      segment.name = field) ↔ parts[position]? = some component := by
  obtain ⟨bound, named, _⟩ := List.findIdx?_eq_some_iff_getElem.mp placed
  have nameAt : table.keyNames[position]? = some field := by
    rw [List.getElem?_eq_getElem bound, of_decide_eq_true named]
  constructor
  · rintro ⟨segment, own, rfl⟩
    obtain ⟨index, placedAt⟩ := List.mem_iff_getElem?.mp own
    obtain ⟨segmentAt, partAt⟩ := List.getElem?_zip_eq_some.mp placedAt
    have again : table.keyNames[index]? = some segment.name := by
      rw [keyNames, List.getElem?_map, segmentAt]
      rfl
    cases (List.getElem?_inj bound apart).mp (nameAt.trans again.symm)
    exact partAt
  · intro partAt
    rw [keyNames, List.getElem?_map, Option.map_eq_some_iff] at nameAt
    obtain ⟨segment, segmentAt, own⟩ := nameAt
    exact ⟨segment, List.mem_iff_getElem?.mpr ⟨position, List.getElem?_zip_eq_some.mpr
      ⟨segmentAt, partAt⟩⟩, own⟩

/-- A field that is no key has none. -/
theorem keyPosition?_eq_none {field : String} (notKey : table.isKey field = false) :
    DeleteIntegrity.keyPosition? table field = none := by
  unfold DeleteIntegrity.keyPosition?
  rw [List.findIdx?_eq_none_iff]
  intro component listed
  refine decide_eq_false fun same => ?_
  rw [isKey, ← same, List.contains_iff_mem.mpr listed] at notKey
  cases notKey

/-- The values that a row key holds in a component are the members of the component at the place of its
name. -/
theorem mem_keyValues_iff (sound : table.IsSound) {rowKey field value : String} {position : Nat}
    (placed : DeleteIntegrity.keyPosition? table field = some position) :
    value ∈ DeleteIntegrity.keyValues table position rowKey ↔
      ∃ parts segment component, table.splitKey rowKey = some parts ∧
        (segment, component) ∈ table.segments.zip parts ∧ segment.name = field ∧
          value ∈ listMembers component := by
  unfold DeleteIntegrity.keyValues
  cases split : table.splitKey rowKey with
  | none => simp
  | some parts =>
      rw [Option.bind_some]
      cases partAt : parts[position]? with
      | none =>
          refine iff_of_false List.not_mem_nil ?_
          rintro ⟨_, segment, component, same, own, named, _⟩
          cases same
          rw [(mem_zip_iff_of_keyPosition? sound.apart placed).mp ⟨segment, own, named⟩] at partAt
          cases partAt
      | some component =>
          constructor
          · intro member
            obtain ⟨segment, own, named⟩ := (mem_zip_iff_of_keyPosition? sound.apart placed).mpr partAt
            exact ⟨parts, segment, component, rfl, own, named, member⟩
          · rintro ⟨_, segment, other, same, own, named, member⟩
            cases same
            cases partAt.symm.trans
              ((mem_zip_iff_of_keyPosition? sound.apart placed).mp ⟨segment, own, named⟩)
            exact member

/-- A component of a key without commas and blanks at its ends is among the values by which deletes
are checked. -/
theorem KeyHolds.mem_keyValues (sound : table.IsSound) {rowKey field value : String}
    (holds : table.KeyHolds rowKey field value) (plain : value ∈ listMembers value) :
    ∃ position, DeleteIntegrity.keyPosition? table field = some position ∧
      value ∈ DeleteIntegrity.keyValues table position rowKey := by
  obtain ⟨parts, segment, component, split, own, rfl, inside⟩ := holds.exists_part sound.named
  have isKey : table.isKey segment.name = true :=
    List.contains_iff_mem.mpr (List.mem_map_of_mem (List.of_mem_zip own).1)
  obtain ⟨position, placed⟩ := exists_keyPosition? isKey
  refine ⟨position, placed, (mem_keyValues_iff sound placed).mpr
    ⟨parts, segment, component, split, own, rfl, ?_⟩⟩
  unfold KeySegment.values at inside
  by_cases repeating : segment.repeating
  · rwa [if_pos repeating] at inside
  · rw [if_neg repeating, List.mem_singleton] at inside
    rwa [inside] at plain ⊢

/-- A value of a leaf without commas and blanks at its ends is among those by which deletes are
checked. -/
theorem Says.mem_rowValues (sound : table.IsSound) {rowKey field value : String} {fields : Fields}
    (said : table.Says rowKey fields field value) (filled : value ≠ "")
    (plain : value ∈ listMembers value) :
    value ∈ DeleteIntegrity.rowValues table field rowKey fields := by
  obtain ⟨combinations, expanded, components, chosen, member⟩ := said
  unfold DeleteIntegrity.rowValues
  rcases mem_leafValues_instanceNode_iff.mp member with inKey | ⟨name, text, held, inside⟩
  · have holds : table.KeyHolds rowKey field value :=
      ⟨combinations, expanded, components, chosen, inKey⟩
    obtain ⟨position, placed, listed⟩ := holds.mem_keyValues sound plain
    rw [placed]
    exact listed
  · have notKey := (of_mem_textValues inside).2.1
    rw [keyPosition?_eq_none notKey]
    exact mem_fieldValues held inside fun _ _ => filled

end TableSchema

namespace Schema

/-- Whether all that a leaf refers to are components of keys. -/
def RefersToKeys (schema : Schema) (leaf : LeafSchema) : Prop :=
  leaf.targets ≠ [] ∧ ∀ target ∈ leaf.targets, ∃ table, schema.table? target.table = some table ∧
    table.isKey target.leaf = true

variable {schema : Schema} {table : TableSchema} {field : String} {leaf : LeafSchema}
  {target : LeafrefTarget}

/-- The target of a leaf is one of the leaves that any leaf refers to. -/
theorem mem_referencedLeaves (known : schema.table? table.name = some table)
    (declared : table.leaf? field = some leaf) (refers : target ∈ leaf.targets) :
    target.leaf ∈ schema.referencedLeaves target.table := by
  have collected : ∀ (targets : List LeafrefTarget) (names : Names),
      target ∈ targets ∨ target.leaf ∈ names →
        target.leaf ∈ targets.foldl (fun names one =>
          if one.table = target.table then names.insert one.leaf else names) names := by
    intro targets
    induction targets with
    | nil => exact fun names given => given.resolve_left List.not_mem_nil
    | cons one targets ih =>
        intro names given
        rw [List.foldl_cons]
        refine ih _ ?_
        rcases given with member | before
        · rcases List.mem_cons.mp member with rfl | later
          · right
            rw [if_pos rfl]
            exact Std.ExtTreeSet.mem_insert_self
          · exact Or.inl later
        · right
          by_cases own : one.table = target.table
          · rw [if_pos own]
            exact Std.ExtTreeSet.mem_insert.mpr (Or.inr before)
          · rwa [if_neg own]
  refine collected _ ∅ (Or.inl ?_)
  rw [List.mem_flatMap]
  refine ⟨table, ByName.mem_values_iff.mpr ⟨table.name, known⟩, ?_⟩
  rw [List.mem_flatMap]
  exact ⟨leaf, ByName.mem_values_iff.mpr ⟨field, declared⟩, refers⟩

/-- A leaf refers to its targets. -/
theorem mem_referrers (known : schema.table? table.name = some table)
    (declared : table.leaf? field = some leaf) (refers : target ∈ leaf.targets) :
    (table.name, field) ∈ schema.referrers target.table target.leaf := by
  unfold referrers
  rw [List.mem_flatMap]
  refine ⟨table, ByName.mem_values_iff.mpr ⟨table.name, known⟩, ?_⟩
  rw [List.mem_filterMap]
  exact ⟨(field, leaf), Std.ExtTreeMap.mem_toList_iff_getElem?_eq_some.mpr declared,
    if_pos (List.contains_iff_mem.mpr refers)⟩

/-- The leaves of a table that refer to a leaf are those that have it as a target. -/
theorem mem_referrers_iff (sound : schema.IsSound) (known : schema.table? table.name = some table)
    {owner referred : String} : (table.name, field) ∈ schema.referrers owner referred ↔
      ∃ leaf, table.leaf? field = some leaf ∧ ⟨owner, referred⟩ ∈ leaf.targets := by
  refine ⟨fun listed => ?_, fun ⟨_, declared, refers⟩ => mem_referrers known declared refers⟩
  obtain ⟨other, inSchema, listed⟩ := List.mem_flatMap.mp listed
  obtain ⟨name, otherKnown⟩ := ByName.mem_values_iff.mp inSchema
  obtain ⟨⟨leafName, leaf⟩, declared, refers⟩ := List.mem_filterMap.mp listed
  obtain ⟨holds, same⟩ := Option.ite_none_right_eq_some.mp refers
  obtain ⟨named, rfl⟩ := Prod.mk.inj (Option.some.inj same)
  rw [← named, (sound name other otherKnown).1] at known
  cases otherKnown.symm.trans known
  exact ⟨leaf, Std.ExtTreeMap.mem_toList_iff_getElem?_eq_some.mp declared, List.contains_iff_mem.mp holds⟩

end Schema

end ConfigVetting
