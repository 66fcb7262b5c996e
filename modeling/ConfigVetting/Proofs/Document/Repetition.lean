import ConfigVetting.Engine
import ConfigVetting.Proofs.Document.Gathering
import ConfigVetting.Proofs.Document.Mandatory

/-! # Fields given more than once

A field that is no list may be written under its own name and in its list spelling, with any number of
members there. In a list instance of a row its leaf stands before all members of its name, so that it is
never taken for a repetition (`ConfigVetting.TableSchema.leavesFirst_instanceNode`), and no check counts the
members. The list instances of rows hold no more than one value in each such field exactly if the rows write
no more than one, whether they are accepted or not (`ConfigVetting.Document.isSingleValued_iff`).
-/

namespace ConfigVetting

/-- Whether each leaf among siblings stands before all entries and is the first node of its name. -/
def Forest.LeavesFirst {σ : Type} (siblings : Forest σ) : Prop :=
  siblings.Pairwise fun earlier later =>
    later.kind = .leaf → earlier.kind ≠ .list ∧ earlier.name ≠ later.name

theorem Forest.leavesFirst_bare {σ : Type} {siblings : Forest σ} :
    siblings.bare.LeavesFirst ↔ siblings.LeavesFirst := by
  unfold LeavesFirst bare
  rw [List.pairwise_map]
  simp only [Node.kind_bare, Node.name_bare]

namespace TableSchema

variable {table : TableSchema} {fields : Fields} {name text field : String} {child : Tree}

private theorem Becomes.leavesFirst {nodes : Forest Unit} (becomes : table.Becomes name text nodes) :
    nodes.LeavesFirst := by
  cases becomes with
  | nothing => exact List.Pairwise.nil
  | entry => exact List.pairwise_singleton _ _
  | members => exact List.pairwise_map.mpr (List.pairwise_of_forall fun _ _ => nofun)
  | leaf => exact List.pairwise_singleton _ _

/-- The leaves of a list instance of a row stand before its entries, each before all members of its
name. -/
theorem leavesFirst_instanceNode (apart : table.keyNames.Nodup) {components : List String}
    (count : components.length = table.segments.length) :
    (table.instanceNode fields components).children.LeavesFirst := by
  rw [children_instanceNode, Forest.LeavesFirst, List.pairwise_append]
  refine ⟨?_, ?_, fun earlier key later inside isLeaf => ?_⟩
  · have names : ((table.keyNames.zip components).map Prod.fst).Nodup := by
      rwa [List.map_fst_zip (by rw [keyNames, List.length_map, count])]
    refine List.pairwise_map.mpr ((List.pairwise_map.mp names).imp fun {first second} differs _ => ?_)
    exact ⟨(fun isEntry => by cases isEntry), differs⟩
  · refine List.pairwise_flatMap.mpr ⟨fun _ _ => becomes_fieldNodes.leavesFirst,
      fields.pairwise_toList.imp fun {first second} ordered earlier before later inside isLeaf => ?_⟩
    obtain ⟨own, _⟩ := becomes_fieldNodes.of_leaf inside isLeaf
    obtain ⟨noEntry, base⟩ :=
      becomes_fieldNodes.name_eq (becomes_fieldNodes.noEntries inside (Or.inl isLeaf)) before
    refine ⟨noEntry, fun same => ?_⟩
    -- An earlier field of that plain name is the list spelling of the later one, and so no earlier.
    have named : baseName first.1 = second.1 := base.symm.trans (same.trans own)
    rcases eq_baseName_or_eq_listSpelling first.1 with plain | listed
    · exact ByName.ne_of_compare_lt ordered (plain.trans named)
    · rw [listed, named, ← Std.OrientedCmp.gt_iff_lt, compare_listSpelling] at ordered
      cases ordered
  · obtain ⟨_, _, below⟩ := List.mem_flatMap.mp inside
    obtain ⟨own, notKey⟩ := becomes_fieldNodes.of_leaf below isLeaf
    obtain ⟨component, member, rfl⟩ := List.mem_map.mp key
    refine ⟨(fun isEntry => by cases isEntry), fun same => ?_⟩
    rw [← own, ← same] at notKey
    exact Bool.eq_false_iff.mp notKey (List.contains_iff_mem.mpr (List.of_mem_zip member).1)

end TableSchema

namespace Check.Place

variable {σ : Type} {place : Place} {values later : Values} {child : Node σ} {children : Forest σ}

/-- Whether a check rejects nothing as a repetition. -/
abbrev NeverRepeats {α : Type} (step : Except Rejection α) : Prop :=
  Except.FailsOnly (fun rejection => rejection.code ≠ .repeatedField) step

/-- Whether a child may stand below a list instance: it is an entry, or a leaf or a member of a leaf-list
whose name is a component of the key or declared. -/
def Allows (place : Place) (child : Node σ) : Prop :=
  child.kind = .list ∨ (child.kind = .leaf ∨ child.kind = .leafList) ∧
    (place.table.isKey child.name = true ∨ (place.table.leaf? child.name).isSome = true)

/-- Whether a child is no leaf to which a value was collected before. -/
def IsNew (values : Values) (child : Node σ) : Prop :=
  child.kind = .leaf → values[child.name]? = none

/-- Collecting the values of a child changes those of its name alone, unless it is an entry. -/
theorem getElem?_addValues (added : place.addValues values child = .ok later) (noEntry : child.kind ≠ .list)
    {name : String} (other : child.name ≠ name) : later[name]? = values[name]? := by
  cases collects_of_addValues added with
  | leaf => rw [ByName.getElem?_insert, if_neg other]
  | entry isEntry | nothing isEntry => exact absurd isEntry noEntry

/-- The value of a leaf or of a member of a leaf-list is collected if it is new and its name is a component of
the key or declared. -/
theorem addValues_eq_of_isNew (isLeaf : child.kind = .leaf ∨ child.kind = .leafList)
    (new : IsNew values child) :
    place.addValues values child =
      if place.table.isKey child.name = true ∨ (place.table.leaf? child.name).isSome = true then
        .ok (values.insert child.name (values[child.name]?.getD [] ++ [child.value.getD ""]))
      else .error ((place.reject .undeclaredField
        s!"Unknown field '{child.name}' in table '{place.table.name}'").onField child.name
          (child.value.getD "")) := by
  have repeats : (decide (child.kind = .leaf) && !place.table.isLeafList child.name &&
      !(values[child.name]?.getD []).isEmpty) = false := by
    by_cases leaf : child.kind = .leaf
    · simp [new leaf]
    · simp [leaf]
  have unknown : (!place.table.isKey child.name && (place.table.leaf? child.name).isNone) = true ↔
      ¬ (place.table.isKey child.name = true ∨ (place.table.leaf? child.name).isSome = true) := by
    simp
  unfold addValues
  rcases isLeaf with kind | kind
  all_goals
    simp only [kind] at repeats ⊢
    rw [if_neg (Bool.eq_false_iff.mp repeats), ite_congr (propext unknown) (fun _ => rfl) fun _ => rfl,
      ite_not]

/-- The values of an entry are collected. -/
theorem exists_addValues_of_entry (isEntry : child.kind = .list) :
    ∃ later, place.addValues values child = .ok later := by
  unfold addValues
  simp only [isEntry]
  split
  · exact ⟨_, rfl⟩
  · split <;> exact ⟨_, rfl⟩

/-- The values of a child that is new are collected exactly if it is allowed. -/
theorem exists_addValues_iff (new : IsNew values child) :
    (∃ later, place.addValues values child = .ok later) ↔ place.Allows child := by
  constructor
  · rintro ⟨later, added⟩
    cases collects_of_addValues added with
    | leaf isLeaf known => exact Or.inr ⟨isLeaf, known⟩
    | entry isEntry | nothing isEntry => exact Or.inl isEntry
  · rintro (isEntry | ⟨isLeaf, known⟩)
    · exact exists_addValues_of_entry isEntry
    · rw [addValues_eq_of_isNew isLeaf new, if_pos known]
      exact ⟨_, rfl⟩

/-- A child that is new is not rejected as a repetition. -/
theorem addValues_neverRepeats (new : IsNew values child) :
    NeverRepeats (place.addValues values child) := by
  by_cases isLeaf : child.kind = .leaf ∨ child.kind = .leafList
  · rw [addValues_eq_of_isNew isLeaf new]
    split
    · exact .ok _
    · exact .error nofun
  · by_cases isEntry : child.kind = .list
    · obtain ⟨later, added⟩ : ∃ later, place.addValues values child = .ok later :=
        exists_addValues_of_entry isEntry
      rw [added]
      exact .ok later
    · unfold addValues
      cases kind : child.kind with
      | leaf | leafList | list => simp [kind] at isLeaf isEntry
      | module | container => exact .error nofun

/-- The children that follow are new once the values of one are collected, if each leaf is the first node of
its name. -/
theorem isNew_of_leavesFirst {rest : Forest σ} (first : Forest.LeavesFirst (child :: rest))
    (new : ∀ other ∈ rest, IsNew values other) (added : place.addValues values child = .ok later) :
    ∀ other ∈ rest, IsNew later other := by
  intro other inside leaf
  obtain ⟨noEntry, differs⟩ := (List.pairwise_cons.mp first).1 other inside leaf
  rw [getElem?_addValues added noEntry differs]
  exact new other inside leaf

/-- The values of children are collected exactly if each of them is allowed, where each leaf is the first node
of its name. -/
theorem exists_foldlM_addValues_iff (first : children.LeavesFirst)
    (new : ∀ child ∈ children, IsNew values child) :
    (∃ last, children.foldlM place.addValues values = .ok last) ↔
      ∀ child ∈ children, place.Allows child := by
  induction children generalizing values with
  | nil => exact iff_of_true ⟨values, rfl⟩ (List.forall_mem_nil _)
  | cons child children ih =>
      rw [List.forall_mem_cons] at new ⊢
      rw [← exists_addValues_iff new.1]
      simp only [List.foldlM_cons, Except.bind_eq_ok_iff]
      have others : ∀ middle, place.addValues values child = .ok middle →
          ((∃ last, children.foldlM place.addValues middle = .ok last) ↔
            ∀ child ∈ children, place.Allows child) := fun middle added =>
        ih (List.pairwise_cons.mp first).2 (isNew_of_leavesFirst first new.2 added)
      constructor
      · rintro ⟨last, middle, added, rest⟩
        exact ⟨⟨middle, added⟩, (others middle added).mp ⟨last, rest⟩⟩
      · rintro ⟨⟨middle, added⟩, allowed⟩
        obtain ⟨last, rest⟩ := (others middle added).mpr allowed
        exact ⟨last, middle, added, rest⟩

/-- Where each leaf is the first node of its name, none is rejected as a repetition. -/
theorem foldlM_addValues_neverRepeats (first : children.LeavesFirst)
    (new : ∀ child ∈ children, IsNew values child) :
    NeverRepeats (children.foldlM place.addValues values) := by
  induction children generalizing values with
  | nil => exact .ok values
  | cons child children ih =>
      rw [List.forall_mem_cons] at new
      rw [List.foldlM_cons]
      exact (addValues_neverRepeats new.1).bind fun middle added =>
        ih (List.pairwise_cons.mp first).2 (isNew_of_leavesFirst first new.2 added)

/-- All values of a list instance are collected exactly if each of its children is allowed, where each leaf is
the first node of its name. -/
theorem exists_values_iff {node : Node σ} (first : node.children.LeavesFirst) :
    (∃ values, place.values node = .ok values) ↔ ∀ child ∈ node.children, place.Allows child :=
  exists_foldlM_addValues_iff first fun _ _ _ => by simp

/-! ## Rejections for other reasons -/

/-- The codes with which values that are collected are rejected. -/
def valueCodes : List ReturnCode :=
  [.wrongType, .outOfRange, .notInEnum, .patternMismatch, .dependentDataMissing, .mandatoryDataMissing]

/-- Whether a check only rejects values as such. -/
abbrev JudgesValues {α : Type} (step : Except Rejection α) : Prop :=
  Except.FailsOnly (fun rejection => rejection.code ∈ valueCodes) step

/-- A check that rejects a value judges it, if the code says so. -/
theorem judgesValues_reject (leaf : LeafDecl) {code : ReturnCode} (judges : code ∈ valueCodes)
    (message value : String) :
    JudgesValues (.error (place.rejectValue leaf code message value) : Except Rejection Unit) :=
  .error judges

private theorem judgesValues_checkType (leaf : LeafDecl) (value : String) :
    JudgesValues (place.checkType leaf value) := by
  unfold checkType
  split
  · exact .ok ()
  · split
    · exact .ok ()
    · exact judgesValues_reject leaf (by decide) _ value
  · split
    · exact judgesValues_reject leaf (by decide) _ value
    · split
      · exact judgesValues_reject leaf (by decide) _ value
      · exact .ok ()
  · split
    · exact .ok ()
    · exact judgesValues_reject leaf (by decide) _ value

private theorem judgesValues_checkPattern (leaf : LeafSchema) (value : String) :
    JudgesValues (place.checkPattern leaf value) := by
  unfold checkPattern
  split
  · exact .ok ()
  · split
    · exact .ok ()
    · exact judgesValues_reject leaf.decl (by decide) _ value

private theorem judgesValues_checkLeafref (holds : LeafrefTarget → String → Bool) (leaf : LeafSchema)
    (value : String) : JudgesValues (place.checkLeafref holds leaf value) := by
  unfold checkLeafref
  split
  · exact .ok ()
  · exact judgesValues_reject leaf.decl (by decide) _ value

private theorem judgesValues_checkValues (holds : LeafrefTarget → String → Bool) (values : Values) :
    JudgesValues (place.checkValues holds values) := by
  refine .forM fun (name, _) _ => ?_
  simp only
  cases place.table.leaf? name with
  | none => exact .ok ()
  | some leaf =>
      refine .forM fun value _ => ?_
      exact (judgesValues_checkType leaf.decl value).bind fun _ _ =>
        (judgesValues_checkPattern leaf value).bind fun _ _ => judgesValues_checkLeafref holds leaf value

private theorem judgesValues_checkKept (values : Values) : JudgesValues (place.checkKept values) := by
  refine .forM fun name _ => ?_
  cases place.table.leaf? name with
  | none => exact .ok ()
  | some leaf =>
      simp only
      split
      · exact judgesValues_reject leaf.decl (by decide) _ ""
      · exact .ok ()

private theorem judgesValues_checkComplete (values : Values) : JudgesValues (place.checkComplete values) := by
  refine .forM fun leaf _ => ?_
  split
  · exact judgesValues_reject leaf.decl (by decide) _ ""
  · exact .ok ()

/-- A list instance is rejected while its values are collected, or for one of them. -/
theorem check_failsOnly {allowed : Rejection → Prop} (holds : LeafrefTarget → String → Bool)
    (operation : Operation) {node : Node σ} (collects : Except.FailsOnly allowed (place.values node))
    (judges : ∀ rejection, rejection.code ∈ valueCodes → allowed rejection) :
    Except.FailsOnly allowed (place.check holds operation node) := by
  refine collects.bind fun values _ => ?_
  cases operation with
  | delete => exact (judgesValues_checkKept values).mono judges
  | create =>
      exact ((judgesValues_checkValues holds values).mono judges).bind fun _ _ =>
        (judgesValues_checkComplete values).mono judges
  | update => exact (judgesValues_checkValues holds values).mono judges
  | none => exact (judgesValues_checkValues holds values).mono judges

/-- A list instance in which each leaf is the first node of its name is not rejected for a repetition. -/
theorem check_neverRepeats (holds : LeafrefTarget → String → Bool) (operation : Operation) {node : Node σ}
    (first : node.children.LeavesFirst) :
    NeverRepeats (place.check holds operation node) :=
  check_failsOnly holds operation (foldlM_addValues_neverRepeats first fun _ _ _ => by simp)
    fun _ judges same => absurd (same ▸ judges) (by decide)

end Check.Place

/-! ## Values of one field -/

/-- How many values a row writes in a field that is no list, under its name and in its list spelling. -/
def Fields.written (fields : Fields) (field : String) : Nat :=
  (if field ∈ fields ∧ field ≠ placeholder then 1 else 0) +
    (listMembers (fields[listSpelling field]?.getD "")).length

namespace TableSchema

variable {table : TableSchema} {fields : Fields} {field : String}

/-- The values of a leaf of a list instance are a component of the key and what the two spellings of its name
give, in this order. -/
theorem leafValues_instanceNode (components : List String) (field : String) :
    (table.instanceNode fields components).leafValues field =
      ((table.keyNames.zip components).filterMap fun (name, value) =>
        if name = field then some value else none) ++
      ((fields[field]?.toList.flatMap fun text => table.textValues field text field) ++
        fields[listSpelling field]?.toList.flatMap fun text =>
          table.textValues (listSpelling field) text field) := by
  have others : ∀ entry : String × String, entry.1 ≠ field → entry.1 ≠ listSpelling field →
      table.textValues entry.1 entry.2 field = [] := by
    intro entry plain listed
    refine List.eq_nil_iff_forall_not_mem.mpr fun value member => ?_
    obtain ⟨named, _⟩ := of_mem_textValues member
    rcases eq_baseName_or_eq_listSpelling entry.1 with same | same
    · exact plain (same.trans named)
    · exact listed (same.trans (congrArg listSpelling named))
  rw [← ByName.flatMap_toList_of_two fields (compare_listSpelling field) others, Node.leafValues,
    children_instanceNode, List.filterMap_append, keyLeaves, fieldsNodes, List.filterMap_map,
    List.filterMap_flatMap]
  congr 1
  refine List.filterMap_congr fun component _ => ?_
  by_cases own : component.1 = field <;>
    simp [own, Node.tree, Node.name, Node.kind, Node.value, Node.label, Label.leaf]

private theorem isLeafList_of_declared {leaf : LeafSchema} (declared : table.leaf? field = some leaf) :
    table.isLeafList field = leaf.decl.isList := by
  rw [isLeafList, declared]

/-- A component of the key has one value at most. -/
theorem length_leafValues_of_isKey (apart : table.keyNames.Nodup) {components : List String}
    (count : components.length = table.segments.length) (isKey : table.isKey field = true) :
    ((table.instanceNode fields components).leafValues field).length ≤ 1 := by
  have fromFields : ∀ name (held : Option String),
      (held.toList.flatMap fun text => table.textValues name text field) = [] := by
    intro name held
    refine List.flatMap_eq_nil_iff.mpr fun text _ => List.eq_nil_iff_forall_not_mem.mpr fun value
      member => ?_
    rw [(of_mem_textValues member).2.1] at isKey
    cases isKey
  have names : ((table.keyNames.zip components).map Prod.fst).count field ≤ 1 := by
    rw [List.map_fst_zip (by rw [keyNames, List.length_map, count])]
    exact List.nodup_iff_count_le_one.mp apart field
  rw [List.count, List.countP_map] at names
  rw [leafValues_instanceNode, fromFields, fromFields, List.append_nil, List.append_nil,
    List.length_filterMap_eq_countP]
  refine (List.countP_mono_left fun component _ held => ?_).trans names
  by_cases own : component.1 = field
  · simp [own]
  · simp [own] at held

/-- In a table of entries, no field has values directly below a list instance. -/
theorem leafValues_of_entries {leaves : String × String} (mapped : table.mapLeaves = some leaves)
    (notKey : table.isKey field = false) (components : List String) :
    (table.instanceNode fields components).leafValues field = [] := by
  refine List.eq_nil_iff_forall_not_mem.mpr fun value member => ?_
  rcases mem_leafValues_instanceNode_iff.mp member with own | ⟨name, text, _, given⟩
  · rw [isKey, List.contains_iff_mem.mpr (List.of_mem_zip own).1] at notKey
    cases notKey
  · obtain ⟨child, inside, _, kind, _⟩ := Node.mem_leafValues_iff.mp given
    cases (becomes_fieldNodes.noEntries inside kind).symm.trans mapped

/-- A field that is no list and no component of the key has as many values as are written in it. -/
theorem length_leafValues_of_field (noEntries : table.mapLeaves = none)
    (notKey : table.isKey field = false) (single : table.isLeafList field = false)
    (unmarked : Text.beforeLast listMark field = none) (components : List String) :
    ((table.instanceNode fields components).leafValues field).length = fields.written field := by
  have inKey : ((table.keyNames.zip components).filterMap fun (name, value) =>
      if name = field then some value else none) = [] := by
    refine List.filterMap_eq_nil_iff.mpr fun component member => if_neg fun own => ?_
    rw [← own] at notKey
    exact Bool.eq_false_iff.mp notKey (List.contains_iff_mem.mpr (List.of_mem_zip member).1)
  have plain : ∀ text, table.textValues field text field =
      if field = placeholder then [] else [referenced text] := by
    intro text
    unfold textValues fieldNodes
    by_cases standIn : field = placeholder
    · simp [standIn, Node.leafValues, Node.tree, Node.children]
    · simp [standIn, noEntries, unmarked, notKey, single, Node.leafValues, Node.tree, Node.children,
        Node.name, Node.kind, Node.value, Node.label, Label.leaf]
  have listed : ∀ text, table.textValues (listSpelling field) text field =
      (listMembers text).map referenced := by
    intro text
    have real : listSpelling field ≠ placeholder := fun same => by
      have marked := beforeLast_listSpelling field
      rw [same] at marked
      cases marked.symm.trans (by decide : Text.beforeLast listMark placeholder = none)
    unfold textValues fieldNodes
    simp [real, noEntries, beforeLast_listSpelling, notKey, Node.leafValues, Node.tree, Node.children,
      Node.name, Node.kind, Node.value, Node.label, Label.member, List.filterMap_map]
  rw [leafValues_instanceNode, inKey, List.nil_append, List.length_append, Fields.written]
  congr 1
  · simp only [Std.ExtTreeMap.mem_iff_isSome_getElem?]
    cases fields[field]? with
    | none => simp
    | some text =>
        rw [Option.toList_some, List.flatMap_singleton, plain]
        by_cases standIn : field = placeholder <;> simp [standIn]
  · cases fields[listSpelling field]? with
    | none => simp [show listMembers "" = [] by decide]
    | some text => simp [listed]

end TableSchema

/-- Whether each field of a document that is no list has one value at most directly below a list
instance. -/
def Document.IsSingleValued (schema : Schema) (document : Document) : Prop :=
  ∀ table, schema.table? table.name = some table → ∀ node ∈ document.trees.instancesIn table.name,
    ∀ field leaf, table.leaf? field = some leaf → leaf.decl.isList = false →
      (node.leafValues field).length ≤ 1

/-- Whether rows write one value at most in each field that is no list, the components of keys and entries
apart. -/
def TableRows.WriteOnce (schema : Schema) (rows : TableRows) : Prop :=
  ∀ table, schema.table? table.name = some table → table.mapLeaves = none →
    ∀ (rowKey : String) (fields : Fields), (rows.keyed table.name)[rowKey]? = some fields →
      ∀ field leaf, table.leaf? field = some leaf → leaf.decl.isList = false →
        table.isKey field = false → fields.written field ≤ 1

namespace Document

variable {modules : List ModuleDecl} {delimiter : String} {schema : Schema} {rows : TableRows}
  {subject : Document}

/-- A list instance of a subject of rows is that of a row. -/
theorem exists_row_of_mem_instancesIn (sound : schema.IsSound) (translated : ofRows schema rows =
    .ok subject)
    {table : TableSchema} (known : schema.table? table.name = some table) {node : Tree}
    (inside : node ∈ subject.trees.instancesIn table.name) :
    ∃ (rowKey : String) (fields : Fields) (components : List String),
      (rows.keyed table.name)[rowKey]? = some fields ∧
      components.length = table.segments.length ∧ node = table.instanceNode fields components := by
  obtain ⟨_, gathers⟩ := gathers_ofRows sound translated
  obtain ⟨rowKey, fields, _, row, combinations, expanded, components, chosen, rfl⟩ :=
    (gathers.mem_instancesIn known).mp inside
  obtain ⟨_, _, own⟩ := TableSchema.isChosen_of_expandKey (sound _ table known).2.named expanded chosen
  exact ⟨rowKey, fields, components, row, own.length_eq, rfl⟩

/-- The containers of a subject of rows are those of tables, and their list instances are those of rows. -/
theorem exists_table_of_container (sound : schema.IsSound) (translated : ofRows schema rows = .ok subject)
    {container : Node Nat} (below : container ∈ subject.roots.flatMap Node.children) :
    ∃ table, schema.table? container.name = some table ∧ ∀ node ∈ container.children,
      ∃ (fields : Fields) (components : List String), components.length = table.segments.length ∧
        node.bare = table.instanceNode fields components := by
  obtain ⟨placed, _⟩ := gathers_ofRows sound translated
  obtain ⟨table, known, label⟩ := placed.exists_table_of_below below
  have named : container.name = table.name := congrArg Label.name label
  refine ⟨table, named ▸ known, fun node inside => ?_⟩
  obtain ⟨_, fields, components, _, count, same⟩ := exists_row_of_mem_instancesIn sound translated known
    (placed.mem_instancesIn_bare_iff.mpr ⟨container, below, named, node, inside, rfl⟩)
  exact ⟨fields, components, count, same⟩

/-- A subject of rows is not rejected for a repetition. -/
theorem check_neverRepeats (sound : schema.IsSound) (translated : ofRows schema rows = .ok subject)
    (dependent : Option Document) (operation : Operation) :
    Check.Place.NeverRepeats (Processor.ofSchema schema subject dependent operation) := by
  unfold Processor.ofSchema Schema.check
  split
  · exact .ok ()
  · refine .forM fun container below => ?_
    obtain ⟨table, found, instances⟩ := exists_table_of_container sound translated below
    unfold Check.checkContainer
    simp only [found]
    refine .forM fun node inside => Check.Place.check_neverRepeats _ operation ?_
    obtain ⟨fields, components, count, same⟩ := instances node inside
    rw [← Forest.leavesFirst_bare, ← Node.children_bare, same]
    exact TableSchema.leavesFirst_instanceNode (sound _ table found).2.apart count

/-- **Single values.** A subject of rows is never rejected for a field given more than once. It has one value
at most in each field that is no list exactly if its rows write one at most, whatever it is accepted for. -/
theorem isSingleValued_iff [PatternReader] (built : Schema.build modules delimiter = .ok schema)
    (translated : ofRows schema rows = .ok subject) :
    (∀ dependent operation rejection,
      Processor.ofSchema schema subject dependent operation = .error rejection →
        rejection.code ≠ .repeatedField) ∧
    (subject.IsSingleValued schema ↔ rows.WriteOnce schema) := by
  have sound : schema.IsSound := Schema.isSound_of_build built
  refine ⟨fun dependent operation => ?_, fun holds => ?_, fun write => ?_⟩
  · exact check_neverRepeats sound translated dependent operation
  · intro table known noEntries rowKey fields row field leaf declared single notKey
    have unmarked := ((sound _ table known).2.leaves field leaf declared).2
    have noList := (TableSchema.isLeafList_of_declared declared).trans single
    obtain ⟨_, gathers⟩ := gathers_ofRows sound translated
    obtain ⟨combinations, expanded, components, chosen⟩ := gathers.exists_components known trivial row
    rw [← TableSchema.length_leafValues_of_field noEntries notKey noList unmarked components]
    exact holds table known _ ((gathers.mem_instancesIn known).mpr
      ⟨rowKey, fields, trivial, row, combinations, expanded, components, chosen, rfl⟩) field leaf
        declared single
  · intro table known node inside field leaf declared single
    have tableSound := (sound _ table known).2
    obtain ⟨rowKey, fields, components, row, count, rfl⟩ :=
      exists_row_of_mem_instancesIn sound translated known inside
    cases isKey : table.isKey field with
    | true => exact TableSchema.length_leafValues_of_isKey tableSound.apart count isKey
    | false =>
        cases mapped : table.mapLeaves with
        | some leaves =>
            rw [TableSchema.leafValues_of_entries mapped isKey]
            exact Nat.zero_le 1
        | none =>
            have noList := (TableSchema.isLeafList_of_declared declared).trans single
            rw [TableSchema.length_leafValues_of_field mapped isKey noList
              (tableSound.leaves field leaf declared).2]
            exact write table known mapped rowKey fields row field leaf declared single isKey

/-- A table of ports with a field that is no list. -/
def mtuModules : List ModuleDecl := [{ name := "m", tables := [
  { name := "PORT", keyPattern := "PORT|\x7bname\x7d", leaves := [{ name := "mtu" }] }] }]

/-- A port whose field is written in some spelling. -/
def mtuRows (name text : String) : TableRows :=
  .single "PORT" "x" ((∅ : Fields).insert name text)

/-- A port with a plain field has one value in it. -/
theorem isSingleValued_plainMtu : ∃ subject,
    ofRows (Schema.ofModules mtuModules) (mtuRows "mtu" "9100") = .ok subject ∧
      subject.IsSingleValued (Schema.ofModules mtuModules) := by
  have built := Schema.build_eq_ofModules
    (show (Schema.build mtuModules Schema.usualDelimiter).isOk by decide +kernel)
  obtain ⟨subject, translated⟩ := Except.exists_of_isOk
    (show (ofRows (Schema.ofModules mtuModules) (mtuRows "mtu" "9100")).isOk by decide +kernel)
  have once : ∀ entry ∈ (Schema.ofModules mtuModules).tables.toList,
      ∀ row ∈ ((mtuRows "mtu" "9100").keyed entry.1).toList,
        ∀ leaf ∈ entry.2.leaves.toList, row.2.written leaf.1 ≤ 1 := by
    decide +kernel
  refine ⟨subject, translated, (isSingleValued_iff built translated).2.mpr ?_⟩
  intro table known _ rowKey fields row field leaf declared _ _
  exact once _ (Std.ExtTreeMap.mem_toList_iff_getElem?_eq_some.mpr known) _
    (Std.ExtTreeMap.mem_toList_iff_getElem?_eq_some.mpr row) _
    (Std.ExtTreeMap.mem_toList_iff_getElem?_eq_some.mpr declared)

/-- A port with two members in the list spelling of a field that is no list is accepted with both of
them. -/
theorem accepts_listedMtu : ∃ subject,
    ofRows (Schema.ofModules mtuModules) (mtuRows "mtu@" "1,2") = .ok subject ∧
      Processor.ofSchema (Schema.ofModules mtuModules) subject none .create = .ok () ∧
      ¬ subject.IsSingleValued (Schema.ofModules mtuModules) := by
  have facts : (ofRows (Schema.ofModules mtuModules) (mtuRows "mtu@" "1,2")).toOption.any fun subject =>
      ((Schema.ofModules mtuModules).table? "PORT").any fun port =>
        (port.leaf? "mtu").any fun leaf =>
          (Processor.ofSchema (Schema.ofModules mtuModules) subject none .create).isOk ∧
            port.name = "PORT" ∧ leaf.decl.isList = false ∧
              ∃ node ∈ subject.trees.instancesIn "PORT", node.leafValues "mtu" = ["1", "2"] := by
    decide +kernel
  obtain ⟨subject, made, facts⟩ := (Option.any_eq_true _ _).mp facts
  obtain ⟨port, known, facts⟩ := (Option.any_eq_true _ _).mp facts
  obtain ⟨leaf, declared, facts⟩ := (Option.any_eq_true _ _).mp facts
  obtain ⟨accepted, named, single, node, inside, two⟩ := of_decide_eq_true facts
  obtain ⟨_, accepted⟩ := Except.exists_of_isOk accepted
  refine ⟨subject, Except.toOption_eq_some_iff.mp made, accepted, fun holds => ?_⟩
  have wrong := holds port (named.symm ▸ known) node (named.symm ▸ inside) "mtu" leaf declared single
  rw [two] at wrong
  exact absurd wrong (by decide)

end Document

end ConfigVetting
