import ConfigVetting.Proofs.Document.Copies
import ConfigVetting.Proofs.Document.RoundTrip

/-! # Rows that are united

Merging the documents of two sets of canonical rows unites the rows
(`ConfigVetting.Document.toRows_merge_ofRows`): a row that one of the sets has comes back as it was, and
one that both have comes back with the fields of the second laid over those of the first. Reading back
finds a row at its place, where the list instances of both sets are joined; of their children, those of
the second take the place of those of the first.
-/

namespace ConfigVetting

/-- The values of two maps, those of a name that both have combined. -/
def ByName.unite {β : Type} (combine : β → β → β) (first second : ByName β) : ByName β :=
  second.toList.foldl (fun values entry => values.alter entry.1 fun found =>
    some (found.elim entry.2 fun value => combine value entry.2)) first

private theorem ByName.getElem?_unite {β : Type} (combine : β → β → β) (first second : ByName β)
    (name : String) :
    (first.unite combine second)[name]? = Option.merge combine first[name]? second[name]? := by
  rw [unite, getElem?_foldl_alter (fun value found => some (found.elim value fun own =>
    combine own value)) second.nodup_toList, find?_toList, Option.map_map]
  cases first[name]? <;> cases second[name]? <;> rfl

/-- The fields of a row with those of another one laid over them by name, and with the placeholder only
if there is no other field. -/
def Fields.unite (first second : Fields) : Fields :=
  let fields := (first ∪ second).erase placeholder
  if fields.isEmpty then fields.insert placeholder placeholder else fields

/-- The rows of two sets, those of a table and key that both have united. -/
def TableRows.unite (first second : TableRows) : TableRows :=
  ByName.unite (ByName.unite Fields.unite) first second

private theorem TableRows.getElem?_unite (first second : TableRows) (table : String) :
    (first.unite second)[table]? =
      Option.merge (ByName.unite Fields.unite) first[table]? second[table]? :=
  ByName.getElem?_unite _ first second table

private theorem TableRows.keyed_unite (first second : TableRows) (table rowKey : String) :
    ((first.unite second).keyed table)[rowKey]? =
      Option.merge Fields.unite (first.keyed table)[rowKey]? (second.keyed table)[rowKey]? := by
  rw [keyed, getElem?_unite, keyed, keyed]
  cases first[table]? with
  | none =>
      cases second[table]? with
      | none => rfl
      | some others => exact (Option.merge_none_left).symm
  | some rows =>
      cases second[table]? with
      | none => exact (Option.merge_none_right).symm
      | some others => exact ByName.getElem?_unite Fields.unite rows others rowKey

namespace TableSchema

open Forest

variable {table : TableSchema} {fields first second : Fields} {components others : List String}

/-- Of a canonical row, all fields but the placeholder are read back. -/
theorem IsCanonical.readBack?_eq_erase (canonical : table.IsCanonical fields) (name : String) :
    table.readBack? fields name = (fields.erase placeholder)[name]? := by
  rw [ByName.getElem?_erase]
  rcases canonical.filled with rfl | ⟨_, standsAlone⟩
  · rw [readBack?_onlyPlaceholder, ByName.getElem?_insert]
    by_cases own : placeholder = name <;> simp [own]
  · rw [canonical.readBack?_eq standsAlone]
    by_cases own : placeholder = name
    · rw [if_pos own, ← own, standsAlone]
    · rw [if_neg own]

/-! ## One list instance -/

/-- Whether each child that gives a field a text has the identity of the field. -/
def NamesFields (table : TableSchema) (children : Forest Unit) : Prop :=
  ∀ child ∈ children, ∀ name, (table.entryOf? name child).isSome →
    child.label.identity = table.fieldIdentity name

private theorem kind_of_isSome_entryOf? {child : Tree} {name : String}
    (given : (table.entryOf? name child).isSome) : child.kind ≠ .leafList := by
  intro listed
  rw [entryOf?, listed] at given
  cases given

/-- Among children that name their fields, the text of a field is that of the one with its identity. -/
theorem NamesFields.getLast?_filterMap {children : Forest Unit} (named : table.NamesFields children)
    (distinct : children.identities.Nodup) (name : String) :
    (children.filterMap (table.entryOf? name)).getLast? =
      (children.single? (table.fieldIdentity name)).bind (table.entryOf? name) := by
  induction children with
  | nil => rfl
  | cons child children ih =>
      have rest := ih fun later member => named later (List.mem_cons_of_mem _ member)
      by_cases listed : child.kind = .leafList
      · rw [identities_cons_of_member listed] at distinct
        have nothing : table.entryOf? name child = none := by rw [entryOf?, listed]
        rw [List.filterMap_cons_none nothing, single?_cons_of_member listed, rest distinct]
      · rw [identities_cons_of_single listed, List.nodup_cons] at distinct
        rw [single?_cons_of_single listed]
        cases given : table.entryOf? name child with
        | none =>
            rw [List.filterMap_cons_none given, rest distinct.2]
            by_cases own : child.label.identity = table.fieldIdentity name
            · rw [if_pos own, Option.bind_some, given, ← own, single?_eq_none_iff.mpr distinct.1]
              rfl
            · rw [if_neg own]
        | some text =>
            have own := named child List.mem_cons_self name (by rw [given]; rfl)
            have last : (children.filterMap (table.entryOf? name)).getLast? = none := by
              rw [rest distinct.2, ← own, single?_eq_none_iff.mpr distinct.1]
              rfl
            rw [List.filterMap_cons_some given, List.getLast?_cons, last, if_pos own,
              Option.bind_some, given]
            rfl

private theorem isSome_entryOf?_fieldNode (table : TableSchema) (name value other : String) :
    (table.entryOf? other (table.fieldNode name value)).isSome ↔
      name = other ∧ (table.mapLeaves = none → table.isKey name = false) := by
  unfold entryOf? fieldNode
  cases table.mapLeaves with
  | some leaves =>
      obtain ⟨nameLeaf, valueLeaf⟩ := leaves
      by_cases same : nameLeaf = valueLeaf
      · subst same
        simp [Node.leafValues, Node.tree, Node.kind, Node.children, Node.name, Node.value, Node.label,
          Label.leaf, Label.listInstance]
      · simp [Node.leafValues, Node.tree, Node.kind, Node.children, Node.name, Node.value, Node.label,
          Label.leaf, Label.listInstance, same, Ne.symm same]
  | none =>
      by_cases own : name = other
      · subst own
        simp [Node.tree, Node.kind, Node.name, Node.label, Label.leaf]
      · simp [Node.tree, Node.kind, Node.name, Node.label, Label.leaf, own]

/-- The list instance of a row names its fields. -/
theorem namesFields_instanceNode (table : TableSchema) (fields : Fields) (components : List String) :
    table.NamesFields (table.instanceNode fields components).children := by
  intro child member name given
  rw [children_instanceNode] at member
  rcases List.mem_append.mp member with key | own
  · rw [(entryOf?_keyLeaf key name).1] at given
    cases given
  · obtain ⟨field, value, _, rfl, _⟩ :=
      mem_singles_fieldsNodes (mem_singles_iff.mpr ⟨own, kind_of_isSome_entryOf? given⟩)
    rw [identity_fieldNode, ((table.isSome_entryOf?_fieldNode _ _ _).mp given).1]

/-- The child of a list instance with the identity of a field gives the field a text, unless the field
is a component of the key. -/
theorem isSome_entryOf?_of_single? {child : Tree} {name : String}
    (found : (table.instanceNode fields components).children.single? (table.fieldIdentity name) =
      some child) :
    (table.entryOf? name child).isSome ∨ ∀ other, table.entryOf? name other = none := by
  obtain ⟨member, single, own⟩ := of_single?_eq_some found
  rw [children_instanceNode] at member
  rcases List.mem_append.mp member with key | inFields
  · right
    intro other
    obtain ⟨field, inside, rfl⟩ := List.mem_map.mp key
    have isKey : table.isKey field.1 = true := List.contains_iff_mem.mpr (List.of_mem_zip inside).1
    unfold fieldIdentity at own
    cases mapped : table.mapLeaves with
    | some leaves =>
        rw [mapped] at own
        cases congrArg Label.kind own
    | none =>
        rw [mapped] at own
        have same : field.1 = name := congrArg Label.name own
        unfold entryOf?
        rw [← same, isKey, mapped]
        cases other.kind <;> simp
  · obtain ⟨field, value, _, rfl, noKey⟩ :=
      mem_singles_fieldsNodes (mem_singles_iff.mpr ⟨inFields, single⟩)
    rw [identity_fieldNode] at own
    exact Or.inl ((table.isSome_entryOf?_fieldNode _ _ _).mpr ⟨table.fieldIdentity_inj own, noKey⟩)

/-- Members of a leaf-list are told apart from the other fields. -/
theorem plainText?_of_gathered {base : String} (filled : table.gathered fields base ≠ [])
    (value : String) : table.plainText? (listSpelling base) value = none := by
  have ordinary : table.mapLeaves = none := by
    by_contra entries
    have nothing : ∀ name value, table.memberTexts base name value = [] := fun name value =>
      if_neg fun all => entries all.2.1
    simp [gathered, nothing] at filled
  simp [plainText?, ordinary, beforeLast_listSpelling]

section Joined

variable (sound : table.IsSound) (apart : ∀ leaves ∈ table.mapLeaves, leaves.1 ≠ leaves.2)
  (first second : Fields) (count : components.length = table.segments.length)
  (otherCount : others.length = table.segments.length)

include sound apart count otherCount

/-- Of the children of two list instances that are joined, those of the second are left, and those of the
first that it has none for. -/
theorem single?_join_instanceNode (identity : Label) :
    ((table.instanceNode first components).children.join
        (table.instanceNode second others).children).single? identity =
      ((table.instanceNode second others).children.single? identity).or
        ((table.instanceNode first components).children.single? identity) :=
  (single?_join (nodup_identities_instanceNode sound otherCount) identity).trans
    (joinEither_instanceNode apart first second count otherCount identity)

/-- The text that two joined list instances give a field is that of the second one, if it gives the field
any, and else that of the first. -/
theorem getLast?_filterMap_join (name : String) :
    (((table.instanceNode first components).children.join
        (table.instanceNode second others).children).filterMap (table.entryOf? name)).getLast? =
      (second[name]?.bind (table.plainText? name)).or (first[name]?.bind (table.plainText? name)) := by
  have distinct : (table.instanceNode first components).children.identities.Nodup :=
    nodup_identities_instanceNode sound count
  have otherDistinct : (table.instanceNode second others).children.identities.Nodup :=
    nodup_identities_instanceNode sound otherCount
  have named := table.namesFields_instanceNode first components
  have otherNamed := table.namesFields_instanceNode second others
  have joinedDistinct := nodup_identities_join distinct otherDistinct
  have joinedNamed : table.NamesFields ((table.instanceNode first components).children.join
      (table.instanceNode second others).children) := by
    intro child member own given
    have found := single?_of_mem joinedDistinct member (kind_of_isSome_entryOf? given)
    rw [single?_join_instanceNode sound apart first second count otherCount] at found
    rcases Option.or_eq_some_iff.mp found with right | ⟨_, left⟩
    · exact otherNamed child (of_single?_eq_some right).1 own given
    · exact named child (of_single?_eq_some left).1 own given
  rw [← table.getLast?_filterMap_entryOf? first components,
    ← table.getLast?_filterMap_entryOf? second others, joinedNamed.getLast?_filterMap joinedDistinct,
    named.getLast?_filterMap distinct, otherNamed.getLast?_filterMap otherDistinct,
    single?_join_instanceNode sound apart first second count otherCount]
  cases right : (table.instanceNode second others).children.single? (table.fieldIdentity name) with
  | none => rfl
  | some child =>
      rw [Option.some_or, Option.bind_some]
      rcases isSome_entryOf?_of_single? right with given | none
      · obtain ⟨text, given⟩ := Option.isSome_iff_exists.mp given
        rw [given, Option.some_or]
      · have nothing : ∀ found : Option Tree, found.bind (table.entryOf? name) = Option.none :=
          fun found => Option.bind_eq_none_iff.mpr fun child _ => none child
        rw [none child, nothing]
        rfl

/-- Two list instances that are joined give a field what is read back of the second row, and if that is
nothing, of the first. -/
theorem fieldOf?_joined (name : String) :
    table.fieldOf? (joined (table.instanceNode first components) (table.instanceNode second others))
        name = (table.readBack? second name).or (table.readBack? first name) := by
  have inner : (table.instanceNode second others).kind ≠ .leaf :=
    (Label.isSolid_listInstance _ _).noLeaf
  have members : ∀ base, ((joined (table.instanceNode first components)
      (table.instanceNode second others)).children.filter fun child =>
        child.label.isMemberOf base).map (fun child => child.value.getD "") =
      if table.gathered second base = [] then table.gathered first base
      else table.gathered second base := by
    intro base
    rw [joined_of_inner _ inner, Node.children_withChildren]
    change ((join _ _).membersOf base).map _ = _
    have own := table.map_filter_instanceNode second others base
    rw [membersOf_join (nodup_identities_instanceNode sound otherCount)]
    by_cases none : (table.instanceNode second others).children.membersOf base = []
    · rw [if_pos none, if_pos (own ▸ List.map_eq_nil_iff.mpr none)]
      exact table.map_filter_instanceNode first components base
    · rw [if_neg none, if_neg (own ▸ mt List.map_eq_nil_iff.mp none)]
      exact own
  unfold fieldOf?
  simp only [members]
  rw [joined_of_inner _ inner, Node.children_withChildren,
    getLast?_filterMap_join sound apart first second count otherCount]
  cases marked : Text.beforeLast listMark name with
  | none => rw [readBack?_of_unmarked marked, readBack?_of_unmarked marked]
  | some base =>
      obtain rfl : name = listSpelling base := Text.beforeLast_eq_some_iff.mp marked
      rw [readBack?_listSpelling, readBack?_listSpelling]
      by_cases empty : table.gathered second base = []
      · simp only [if_pos empty]
        by_cases none : table.gathered first base = []
        · rw [if_pos none, if_pos none]
        · have nothing : second[listSpelling base]?.bind (table.plainText? (listSpelling base)) =
              Option.none :=
            Option.bind_eq_none_iff.mpr fun value _ => plainText?_of_gathered none value
          rw [if_neg none, if_neg none, nothing]
          rfl
      · simp only [if_neg empty]
        rfl

/-- The list instances of two canonical rows that are joined read back as the rows united. -/
theorem instanceFields_joined (canonical : table.IsCanonical first)
    (otherCanonical : table.IsCanonical second) :
    table.instanceFields
      (joined (table.instanceNode first components) (table.instanceNode second others)) =
        first.unite second := by
  obtain ⟨kept, found, read⟩ := table.exists_fieldOf?
    (joined (table.instanceNode first components) (table.instanceNode second others))
  have same : kept = (first ∪ second).erase placeholder := by
    refine Std.ExtTreeMap.ext_getElem? fun name => ?_
    rw [found, fieldOf?_joined sound apart first second count otherCount,
      otherCanonical.readBack?_eq_erase, canonical.readBack?_eq_erase, ByName.getElem?_erase,
      ByName.getElem?_erase, ByName.getElem?_erase, Std.ExtTreeMap.getElem?_union]
    by_cases own : placeholder = name <;> simp [own]
  rw [read, same]
  rfl

end Joined

end TableSchema

/-! ## Whole documents -/

namespace TableRows

variable {schema : Schema} {rows : TableRows} {table : TableSchema} {rowKey : String} {fields : Fields}

/-- Whether rows are canonical rows of tables of a schema with single-valued keys. -/
def AreCanonical (schema : Schema) (rows : TableRows) : Prop :=
  ∀ name keyed, rows[name]? = some keyed → ∃ table : TableSchema, table.name = name ∧
    schema.table? table.name = some table ∧ table.IsSingle ∧
    ∀ (rowKey : String) fields, keyed[rowKey]? = some fields → table.IsCanonical fields

instance (schema : Schema) (rows : TableRows) : Decidable (rows.AreCanonical schema) :=
  decidable_of_iff (∀ entry ∈ rows.toList, (schema.table? entry.1).any fun table =>
      table.name = entry.1 ∧ table.IsSingle ∧ ∀ row ∈ entry.2.toList, table.IsCanonical row.2)
    ⟨fun each name keyed held => by
      obtain ⟨table, known, own⟩ := (Option.any_eq_true _ _).mp
        (each (name, keyed) (Std.ExtTreeMap.mem_toList_iff_getElem?_eq_some.mpr held))
      obtain ⟨named, single, rows⟩ := of_decide_eq_true own
      exact ⟨table, named, named ▸ known, single, fun rowKey fields row =>
        rows (rowKey, fields) (Std.ExtTreeMap.mem_toList_iff_getElem?_eq_some.mpr row)⟩,
    fun canonical entry member => by
      obtain ⟨table, named, known, single, rows⟩ := canonical _ _
        (Std.ExtTreeMap.mem_toList_iff_getElem?_eq_some.mp member)
      exact (Option.any_eq_true _ _).mpr ⟨table, named ▸ known, decide_eq_true ⟨named, single,
        fun row inside => rows row.1 row.2 (Std.ExtTreeMap.mem_toList_iff_getElem?_eq_some.mp inside)⟩⟩⟩

/-- Whether the tables of a schema split the keys of all their rows. -/
def AreSplit (schema : Schema) (rows : TableRows) : Prop :=
  ∀ name keyed, rows[name]? = some keyed → ∀ table ∈ schema.table? name,
    ∀ (rowKey : String) fields, keyed[rowKey]? = some fields → (table.splitKey rowKey).isSome

instance (schema : Schema) (rows : TableRows) : Decidable (rows.AreSplit schema) :=
  decidable_of_iff (∀ entry ∈ rows.toList, ∀ table ∈ schema.table? entry.1,
      ∀ row ∈ entry.2.toList, (table.splitKey row.1).isSome)
    ⟨fun each name keyed held table known rowKey fields row =>
      each (name, keyed) (Std.ExtTreeMap.mem_toList_iff_getElem?_eq_some.mpr held) table known
        (rowKey, fields)
        (Std.ExtTreeMap.mem_toList_iff_getElem?_eq_some.mpr row),
    fun split _ member table known _ inside =>
      split _ _ (Std.ExtTreeMap.mem_toList_iff_getElem?_eq_some.mp member) table known _ _
        (Std.ExtTreeMap.mem_toList_iff_getElem?_eq_some.mp inside)⟩

private theorem exists_of_keyed (row : (rows.keyed table.name)[rowKey]? = some fields) :
    ∃ keyed, rows[table.name]? = some keyed ∧ keyed[rowKey]? = some fields := by
  unfold keyed at row
  cases held : rows[table.name]? with
  | none =>
      rw [held] at row
      cases row
  | some keyed => exact ⟨keyed, rfl, by rwa [held] at row⟩

private theorem AreCanonical.isCanonical (canonical : rows.AreCanonical schema)
    (known : schema.table? table.name = some table)
    (row : (rows.keyed table.name)[rowKey]? = some fields) : table.IsCanonical fields := by
  obtain ⟨keyed, held, inside⟩ := exists_of_keyed row
  obtain ⟨other, named, otherKnown, _, each⟩ := canonical _ keyed held
  cases Schema.eq_of_name_eq otherKnown known named
  exact each rowKey fields inside

/-- Canonical rows of keys that are split become documents. -/
theorem AreCanonical.areRead (sound : schema.IsSound) (canonical : rows.AreCanonical schema)
    (split : rows.AreSplit schema) : Forest.AreRead schema rows := by
  intro name keyed held
  obtain ⟨table, rfl, known, single, _⟩ := canonical name keyed held
  refine ⟨table, rfl, known, (sound _ _ known).2.named, single, fun rowKey fields row => ?_⟩
  exact Option.isSome_iff_exists.mp (split _ keyed held table known rowKey fields row)

/-- The keys of rows that become a document are split. -/
theorem areSplit_of_ofRows {forest : Forest Unit} (made : Forest.ofRows schema rows = .ok forest) :
    rows.AreSplit schema := by
  intro name keyed held table known rowKey fields row
  obtain ⟨container, again, nodes, againKnown, translated, _⟩ :=
    (Forest.mem_containers_of_foldlM made).1 _ (Std.ExtTreeMap.mem_toList_iff_getElem?_eq_some.mpr held)
  cases known.symm.trans againKnown
  obtain ⟨combinations, expanded, _⟩ := TableSchema.expands_of_rowsNodes translated row
  obtain ⟨components, split, _⟩ := TableSchema.expandKey_eq_ok_iff.mp expanded
  exact Option.isSome_iff_exists.mpr ⟨components, split⟩

/-- Canonical rows become a document exactly if their keys are split. -/
theorem AreCanonical.exists_ofRows_iff (sound : schema.IsSound)
    (canonical : rows.AreCanonical schema) :
    (∃ document, Document.ofRows schema rows = .ok document) ↔ rows.AreSplit schema := by
  constructor
  · rintro ⟨document, made⟩
    obtain ⟨forest, translated, _⟩ := Except.map_eq_ok_iff.mp made
    exact areSplit_of_ofRows translated
  · intro split
    obtain ⟨forest, translated, _⟩ := Forest.ofRows_spec (canonical.areRead sound split)
    exact ⟨_, Except.map_eq_ok_iff.mpr ⟨forest, translated, rfl⟩⟩

/-- What canonical rows become: a forest of the shape of the schema with the container of each of their
tables, and each row at its place. -/
theorem AreCanonical.spec (sound : schema.IsSound) (canonical : rows.AreCanonical schema)
    {document : Document} (made : Document.ofRows schema rows = .ok document) :
    document.IsShaped schema ∧ ∀ table, schema.table? table.name = some table →
      ((document.trees.reach? table.place).isSome ↔ (rows[table.name]?).isSome) ∧
      ∀ key, document.row? table key = (rows.keyed table.name)[key]?.map (table.rowNode key) := by
  obtain ⟨forest, translated, rfl⟩ := Except.map_eq_ok_iff.mp made
  have areRead := canonical.areRead sound (areSplit_of_ofRows translated)
  obtain ⟨again, translatedAgain, shaped, found⟩ := Forest.ofRows_spec areRead
  cases translated.symm.trans translatedAgain
  have trees : (Document.ofForest forest).trees = forest := by
    rw [Document.trees_ofForest, Forest.bare_tree]
  rw [Document.IsShaped, trees]
  refine ⟨shaped, fun table known => ⟨?_, fun key => ?_⟩⟩
  · exact Forest.isSome_reach?_place_of_ofRows sound translated shaped known
  · rw [Document.row?, trees, found table known]

end TableRows

namespace Document

variable {modules : List ModuleDecl} {delimiter : String} {schema : Schema} {first second : TableRows}

/-- The list instances that two sets of canonical rows have at a place read back, joined, as the rows
united. -/
theorem map_joinFound_rowNode (sound : schema.IsSound) (canonical : first.AreCanonical schema)
    (otherCanonical : second.AreCanonical schema) (split : first.AreSplit schema) {table : TableSchema}
    (known : schema.table? table.name = some table) (key : String) :
    (Forest.joinFound ((first.keyed table.name)[key]?.map (table.rowNode key))
        ((second.keyed table.name)[key]?.map (table.rowNode key))).map table.instanceFields =
      Option.merge Fields.unite (first.keyed table.name)[key]? (second.keyed table.name)[key]? := by
  have alone : ∀ fields, table.IsCanonical fields →
      table.instanceFields (table.rowNode key fields) = fields := fun fields canonical =>
    (table.instanceFields_rowNode key fields).trans canonical.settled_eq
  cases row : (first.keyed table.name)[key]? with
  | none =>
      cases other : (second.keyed table.name)[key]? with
      | none => rfl
      | some fields => exact congrArg some (alone fields (otherCanonical.isCanonical known other))
  | some fields =>
      have own := canonical.isCanonical known row
      cases other : (second.keyed table.name)[key]? with
      | none => exact congrArg some (alone fields own)
      | some others =>
          have tableSound := (sound _ _ known).2
          obtain ⟨keyed, held, inside⟩ := TableRows.exists_of_keyed row
          obtain ⟨components, splitKey⟩ := Option.isSome_iff_exists.mp
            (split _ keyed held table known key fields inside)
          have count := (TableSchema.splitKey_sound tableSound.named splitKey).1
          have inner : (table.rowNode key others).kind ≠ .leaf :=
            (Label.isSolid_listInstance _ _).noLeaf
          rw [Option.map_some, Option.map_some, Forest.joinFound, Option.map_some,
            ← Forest.joined_of_inner _ inner, TableSchema.rowNode, TableSchema.rowNode, splitKey,
            Option.getD_some, TableSchema.instanceFields_joined tableSound own.entries fields others
              count count own (otherCanonical.isCanonical known other)]
          rfl

/-- **Uniting rows.** Of two sets of canonical rows of tables with single-valued keys, each becomes a
document exactly if its keys are split, and the documents merged read back as the rows united: a row
that one of the sets has as it was, and one that both have with the fields of the second laid over those
of the first, the placeholder left only if there is no other field. -/
theorem toRows_merge_ofRows [PatternReader] (built : Schema.build modules delimiter = .ok schema)
    (canonical : first.AreCanonical schema) (otherCanonical : second.AreCanonical schema) :
    ((∃ document, ofRows schema first = .ok document) ↔ first.AreSplit schema) ∧
      ((∃ source, ofRows schema second = .ok source) ↔ second.AreSplit schema) ∧
      ∀ document source, ofRows schema first = .ok document → ofRows schema second = .ok source →
        (document.merge source.roots).toRows schema = .ok (first.unite second) := by
  have sound := Schema.isSound_of_build built
  refine ⟨canonical.exists_ofRows_iff sound, otherCanonical.exists_ofRows_iff sound, ?_⟩
  intro document source made otherMade
  obtain ⟨shaped, tables⟩ := canonical.spec sound made
  obtain ⟨otherShaped, otherTables⟩ := otherCanonical.spec sound otherMade
  have split := (canonical.exists_ofRows_iff sound).mp ⟨document, made⟩
  rw [toRows_trees]
  refine (shaped.merge otherShaped).toRows_eq_ok (fun name keyed held => ?_) (fun table known => ?_)
    fun table known key => ?_
  · rw [TableRows.getElem?_unite] at held
    cases own : first[name]? with
    | some rows =>
        obtain ⟨table, named, known, _⟩ := canonical name rows own
        exact ⟨table, named, named ▸ known⟩
    | none =>
        rw [own, Option.merge_none_left] at held
        obtain ⟨table, named, known, _⟩ := otherCanonical name keyed held
        exact ⟨table, named, named ▸ known⟩
  · have here : ((document.merge source.roots).trees.reach? table.place).isSome ↔
        (document.trees.reach? table.place).isSome ∨ (source.trees.reach? table.place).isSome := by
      have short : table.place.length ≤ 3 := by simp [TableSchema.place]
      rw [trees_merge_roots, Forest.reach?_join shaped.orderly otherShaped.orderly short,
        Forest.isSome_joinFound, Bool.or_eq_true]
    rw [here, (tables table known).1, (otherTables table known).1, TableRows.getElem?_unite]
    cases first[table.name]? <;> cases second[table.name]? <;> simp
  · have here : (document.merge source.roots).row? table key =
        Forest.joinFound (document.row? table key) (source.row? table key) :=
      row?_merge shaped otherShaped table key
    rw [(tables table known).2, (otherTables table known).2] at here
    change ((document.merge source.roots).row? table key).map table.instanceFields = _
    rw [here, map_joinFound_rowNode sound canonical otherCanonical split known, TableRows.keyed_unite]

/-- Rows of two tables, some of them with others laid over them. -/
theorem toRows_merge_ofRows_portAndQueue :
    let schema := Schema.ofModules portsAndQueues
    let row (fields : List (String × String)) : Fields := .ofList fields
    let change : TableRows := ((((∅ : TableRows).put "PORT" "x" (row [("lanes@", "3")])).put
      "PORT" "y" (row [("mtu", "1500")])).put "QUEUE" "x|3" (row [("1", "6"), ("2", "7")])).put
      "QUEUE" "y|3" (row [("NULL", "NULL")])
    portAndQueueRows.AreCanonical schema ∧ change.AreCanonical schema ∧
      (∃ document source, ofRows schema portAndQueueRows = .ok document ∧
        ofRows schema change = .ok source ∧
        (document.merge source.roots).toRows schema = .ok (portAndQueueRows.unite change)) ∧
      portAndQueueRows.unite change = ((((∅ : TableRows).put
        "PORT" "x" (row [("lanes@", "3"), ("mtu", "9100")])).put
        "PORT" "y" (row [("mtu", "1500")])).put
        "QUEUE" "x|3" (row [("0", "4"), ("1", "6"), ("2", "7")])).put
        "QUEUE" "y|3" (row [("NULL", "NULL")]) := by
  intro schema row change
  have canonical : portAndQueueRows.AreCanonical schema := by decide +kernel
  have otherCanonical : change.AreCanonical schema := by decide +kernel
  obtain ⟨split, otherSplit, merged⟩ := toRows_merge_ofRows
    (Schema.build_eq_ofModules (by decide +kernel)) canonical otherCanonical
  obtain ⟨document, first⟩ := split.mpr (by decide +kernel)
  obtain ⟨source, second⟩ := otherSplit.mpr (by decide +kernel)
  exact ⟨canonical, otherCanonical, ⟨document, source, first, second, merged _ _ first second⟩,
    by decide +kernel⟩

end Document

end ConfigVetting
