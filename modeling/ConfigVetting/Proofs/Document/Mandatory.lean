import ConfigVetting.Proofs.Document.RowValues

/-! # Mandatory leaves

Whether the list instances of a row have a value in a leaf depends on the fields of the row one by one,
unless the leaf is a component of the key (`ConfigVetting.TableSchema.fills_iff`). A subject that passes
for a create has values in all mandatory leaves (`ConfigVetting.Document.fills_of_check`), and one that
passes for a delete has none in any of them (`ConfigVetting.Document.not_shows_of_check`).
-/

namespace ConfigVetting

namespace TableSchema

variable {table : TableSchema} {fields : Fields} {field value : String}

/-- Whether a row has list instances, and each of them a value in a leaf. -/
def Fills (table : TableSchema) (rowKey : String) (fields : Fields) (field : String) : Prop :=
  ∃ nodes, table.rowNodes rowKey fields = .ok nodes ∧ nodes ≠ [] ∧
    ∀ node ∈ nodes, ∃ value, table.Gives node field value

/-- Whether one field of a row gives its list instances a value of a leaf. -/
def Tells (table : TableSchema) (name text field : String) : Prop :=
  ∃ value, table.Gives (Node.tree (.plain "" .list) (table.fieldNodes name text)) field value

/-- Whether some field of a row gives its list instances a value of a leaf. -/
def Shows (table : TableSchema) (fields : Fields) (field : String) : Prop :=
  ∃ name text, fields[name]? = some text ∧ table.Tells name text field

/-- A value of a leaf is a component of the key or given by a field. -/
theorem gives_instanceNode_iff {components : List String} :
    table.Gives (table.instanceNode fields components) field value ↔
      (field, value) ∈ table.keyNames.zip components ∨
        ∃ name text, fields[name]? = some text ∧
          table.Gives (Node.tree (.plain "" .list) (table.fieldNodes name text)) field value := by
  unfold Gives
  rw [mem_leafValues_instanceNode_iff, or_assoc]
  refine or_congr_right ?_
  constructor
  · rintro (⟨name, text, held, member⟩ | ⟨nameLeaf, mapped, entry, inside, isList, member⟩)
    · exact ⟨name, text, held, Or.inl member⟩
    · rcases List.mem_append.mp inside with inKey | inFields
      · obtain ⟨_, _, rfl⟩ := List.mem_map.mp inKey
        cases isList
      · obtain ⟨⟨name, text⟩, listed, below⟩ := List.mem_flatMap.mp inFields
        exact ⟨name, text, Std.ExtTreeMap.mem_toList_iff_getElem?_eq_some.mp listed,
          Or.inr ⟨nameLeaf, mapped, entry, below, isList, member⟩⟩
  · rintro ⟨name, text, held, member | ⟨nameLeaf, mapped, entry, below, isList, member⟩⟩
    · exact Or.inl ⟨name, text, held, member⟩
    · refine Or.inr ⟨nameLeaf, mapped, entry, List.mem_append_right _ ?_, isList, member⟩
      exact List.mem_flatMap.mpr ⟨(name, text), Std.ExtTreeMap.mem_toList_iff_getElem?_eq_some.mpr
        held, below⟩

/-- The list instances of a row have a value in a leaf if it is a component of the key, or else if a field
gives one. -/
theorem fills_iff (named : table.segments ≠ []) {rowKey : String} {combinations : List (List String)}
    (expanded : table.expandKey rowKey = .ok combinations) :
    table.Fills rowKey fields field ↔ table.isKey field = true ∨ table.Shows fields field := by
  obtain ⟨first, chosen⟩ := exists_mem_of_expandKey expanded
  constructor
  · rintro ⟨nodes, made, _, each⟩
    obtain ⟨_, again, rfl⟩ := Except.map_eq_ok_iff.mp made
    cases expanded.symm.trans again
    obtain ⟨value, given⟩ := each _ (List.mem_map_of_mem chosen)
    rcases gives_instanceNode_iff.mp given with own | ⟨name, text, held, told⟩
    · exact Or.inl (List.contains_iff_mem.mpr (List.of_mem_zip own).1)
    · exact Or.inr ⟨name, text, held, value, told⟩
  · intro has
    refine ⟨_, Except.map_eq_ok_iff.mpr ⟨combinations, expanded, rfl⟩, ?_, fun node inside => ?_⟩
    · exact List.ne_nil_of_mem (List.mem_map_of_mem chosen)
    · obtain ⟨components, chosenOwn, rfl⟩ := List.mem_map.mp inside
      rcases has with isKey | ⟨name, text, held, value, told⟩
      · obtain ⟨position, nameAt⟩ := List.mem_iff_getElem?.mp (List.contains_iff_mem.mp isKey)
        obtain ⟨parts, _, choice⟩ := isChosen_of_expandKey named expanded chosenOwn
        have inside : position < components.length := by
          rw [choice.length_eq, ← List.length_map, ← keyNames]
          exact (List.getElem?_eq_some_iff.mp nameAt).1
        refine ⟨components[position], gives_instanceNode_iff.mpr (Or.inl ?_)⟩
        exact List.mem_iff_getElem?.mpr ⟨position, List.getElem?_zip_eq_some.mpr
          ⟨nameAt, List.getElem?_eq_getElem inside⟩⟩
      · exact ⟨value, gives_instanceNode_iff.mpr (Or.inr ⟨name, text, held, told⟩)⟩

/-- Rows of one key that show a leaf alike have values in it alike. -/
theorem fills_congr (named : table.segments ≠ []) {rowKey : String} {combinations : List (List String)}
    (expanded : table.expandKey rowKey = .ok combinations) {first second : Fields}
    (same : table.Shows first field ↔ table.Shows second field) :
    table.Fills rowKey first field ↔ table.Fills rowKey second field := by
  rw [fills_iff named expanded, fills_iff named expanded, same]

/-- The leaves and members that a field becomes all have values. -/
theorem value_ne_none_of_mem_fieldNodes {name text : String} {child : Tree}
    (below : child ∈ table.fieldNodes name text)
    (isLeaf : child.kind = .leaf ∨ child.kind = .leafList) : child.value ≠ none := by
  have becomes : table.Becomes name text (table.fieldNodes name text) := becomes_fieldNodes
  generalize table.fieldNodes name text = nodes at becomes below
  cases becomes with
  | nothing => cases below
  | entry =>
      cases List.mem_singleton.mp below
      rcases isLeaf with leaf | leafList
      · cases leaf
      · cases leafList
  | members =>
      obtain ⟨_, _, rfl⟩ := List.mem_map.mp below
      nofun
  | leaf =>
      cases List.mem_singleton.mp below
      nofun

/-- The leaves and members below a list instance of a row all have values. -/
theorem value_ne_none_of_mem_instanceNode {components : List String} {child : Tree}
    (inside : child ∈ (table.instanceNode fields components).children)
    (isLeaf : child.kind = .leaf ∨ child.kind = .leafList) : child.value ≠ none := by
  rcases List.mem_append.mp inside with inKey | inFields
  · obtain ⟨_, _, rfl⟩ := List.mem_map.mp inKey
    nofun
  · obtain ⟨_, _, below⟩ := List.mem_flatMap.mp inFields
    exact value_ne_none_of_mem_fieldNodes below isLeaf

/-- What a field gives is not that of the placeholder. -/
theorem Tells.ne_placeholder {name text : String} (told : table.Tells name text field) :
    name ≠ placeholder := by
  rintro rfl
  obtain ⟨value, member | ⟨_, _, entry, inside, _⟩⟩ := told
  · cases member
  · cases inside

/-- In a table without entries, a field gives values to the leaf of its plain name alone. -/
theorem Tells.baseName_eq {name text : String} (told : table.Tells name text field)
    (noEntries : table.mapLeaves = none) : baseName name = field := by
  obtain ⟨value, member | ⟨_, mapped, _⟩⟩ := told
  · exact (of_mem_textValues member).1
  · cases noEntries.symm.trans mapped

end TableSchema

namespace Check.Place

variable {σ : Type} {place : Place} {values : Values} {field value : String}

/-- No field stands among the collected values without a value. -/
theorem ne_nil_of_values {node : Node σ} (made : place.values node = .ok values) :
    ∀ (name : String) (members : List String), values[name]? = some members → members ≠ [] := by
  refine Except.foldlM_invariant
    (fun values : Values => ∀ (name : String) (members : List String),
      values[name]? = some members → members ≠ []) (fun before child after holds added => ?_) ?_ made
  · intro name members found
    have inserted : ∀ (own : String) (first more : List String), more ≠ [] →
        after = before.insert own (first ++ more) → members ≠ [] := by
      rintro own first more some rfl
      rw [ByName.getElem?_insert] at found
      by_cases same : own = name
      · rw [if_pos same, Option.some.injEq] at found
        exact found ▸ List.append_ne_nil_of_right_ne_nil first some
      · rw [if_neg same] at found
        exact holds name members found
    cases collects_of_addValues added with
    | leaf => exact inserted _ _ _ (List.cons_ne_nil _ _) rfl
    | entry _ _ given => exact inserted _ _ _ given rfl
    | nothing => exact holds name members found
  · intro name members found
    simp at found

/-- The fields with collected values are those to which the list instance gives one. -/
theorem mem_values_iff {node : Node σ} (made : place.values node = .ok values)
    (valued : ∀ child ∈ node.children, child.kind = .leaf ∨ child.kind = .leafList →
      child.value ≠ none) : field ∈ values ↔ ∃ value, place.table.Gives node field value := by
  have collects : field ∈ values ↔ ∃ value, value ∈ collected values field := by
    unfold collected
    rw [Std.ExtTreeMap.mem_iff_isSome_getElem?]
    cases found : values[field]? with
    | none => simp
    | some members =>
        exact iff_of_true rfl (List.exists_mem_of_ne_nil members (ne_nil_of_values made field
          members found))
  rw [collects]
  exact exists_congr fun value => mem_collected_iff made fun child inside isLeaf absent =>
    absurd absent (valued child inside isLeaf)

/-- A list instance that is complete has collected values in every mandatory leaf. -/
theorem mem_of_checkComplete (complete : place.checkComplete values = .ok ()) {leaf : LeafSchema}
    (declared : place.table.leaf? field = some leaf) (named : leaf.decl.name = field)
    (mandatory : leaf.decl.mandatory = true) : field ∈ values := by
  have own := Except.forM_eq_ok_iff.mp complete leaf (ByName.mem_values_iff.mpr ⟨field, declared⟩)
  by_contra missing
  rw [if_pos (by simp [mandatory, named, missing])] at own
  cases own

/-- A delete that is allowed has no collected values in mandatory leaves beside the key. -/
theorem not_mem_of_checkKept (kept : place.checkKept values = .ok ()) {leaf : LeafSchema}
    (declared : place.table.leaf? field = some leaf) (mandatory : leaf.decl.mandatory = true)
    (notKey : place.table.isKey field = false) : field ∉ values := by
  intro inside
  have own := Except.forM_eq_ok_iff.mp kept field (Std.ExtTreeMap.mem_keys.mpr inside)
  simp only [declared, mandatory, notKey, Bool.not_false, Bool.and_self, ↓reduceIte] at own
  cases own

end Check.Place

namespace Document

variable {schema : Schema} {rows : TableRows} {subject : Document} {dependent : Option Document}
  {table : TableSchema} {rowKey : String} {fields : Fields} {combinations : List (List String)}

/-- Each list instance of a row in a subject that passes was checked. -/
theorem exists_checked {operation : Operation} (acts : operation ≠ .none)
    (accepted : schema.check subject.roots (dependent.map roots) operation = .ok ())
    (translated : ofRows schema rows = .ok subject)
    (known : schema.table? table.name = some table)
    (row : (rows.keyed table.name)[rowKey]? = some fields)
    (expanded : table.expandKey rowKey = .ok combinations) {components : List String}
    (chosen : components ∈ combinations) :
    ∃ (holds : LeafrefTarget → String → Bool) (own : Node Nat),
      own.bare = table.instanceNode fields components ∧
        (Check.Place.ofNode table own).check holds operation own = .ok () := by
  obtain ⟨container, below, named, instances⟩ := exists_container_ofRows translated known row
  have inside := instances combinations expanded components chosen
  rw [trees, Forest.flatMap_children_bare] at below
  obtain ⟨own, ownBelow, rfl⟩ := List.mem_map.mp below
  rw [Node.children_bare] at inside
  obtain ⟨node, ownInside, same⟩ := List.mem_map.mp inside
  rw [Node.name_bare] at named
  unfold Schema.check at accepted
  rw [if_neg acts] at accepted
  have passed := Except.forM_eq_ok_iff.mp accepted own ownBelow
  unfold Check.checkContainer at passed
  simp only [named, known] at passed
  exact ⟨_, node, same, Except.forM_eq_ok_iff.mp passed node ownInside⟩

/-- The values that are collected of a list instance of a row stand in the leaves to which it gives
some. -/
theorem mem_values_iff {components : List String} {own : Node Nat}
    (same : own.bare = table.instanceNode fields components) {values : Check.Values}
    (made : (Check.Place.ofNode table own).values own = .ok values) {field : String} :
    field ∈ values ↔ ∃ value, table.Gives (table.instanceNode fields components) field value := by
  rw [← same]
  simp only [TableSchema.gives_bare]
  refine Check.Place.mem_values_iff made fun child inside isLeaf => ?_
  have below : child.bare ∈ (table.instanceNode fields components).children := by
    rw [← same, Node.children_bare]
    exact List.mem_map_of_mem inside
  rw [← child.kind_bare] at isLeaf
  rw [← child.value_bare]
  exact TableSchema.value_ne_none_of_mem_instanceNode below isLeaf

/-- The rows of a subject that passes for a create have values in all mandatory leaves. -/
theorem fills_of_check (sound : table.IsSound)
    (accepted : schema.check subject.roots (dependent.map roots) .create = .ok ())
    (translated : ofRows schema rows = .ok subject) (known : schema.table? table.name = some table)
    (row : (rows.keyed table.name)[rowKey]? = some fields)
    (expanded : table.expandKey rowKey = .ok combinations) {field : String} {leaf : LeafSchema}
    (declared : table.leaf? field = some leaf) (mandatory : leaf.decl.mandatory = true) :
    table.Fills rowKey fields field := by
  obtain ⟨first, chosen⟩ := TableSchema.exists_mem_of_expandKey expanded
  refine ⟨_, Except.map_eq_ok_iff.mpr ⟨combinations, expanded, rfl⟩,
    List.ne_nil_of_mem (List.mem_map_of_mem chosen), fun node inside => ?_⟩
  obtain ⟨components, chosenOwn, rfl⟩ := List.mem_map.mp inside
  obtain ⟨holds, own, same, checked⟩ :=
    exists_checked (by decide) accepted translated known row expanded chosenOwn
  obtain ⟨values, made, rest⟩ := Except.bind_eq_ok_iff.mp checked
  obtain ⟨_, _, complete⟩ := Except.bind_eq_ok_iff.mp rest
  exact (mem_values_iff same made).mp (Check.Place.mem_of_checkComplete complete declared
    (sound.leaves field leaf declared).1 mandatory)

/-- The rows of a subject that passes for a delete show no values in mandatory leaves beside the key. -/
theorem not_shows_of_check
    (accepted : schema.check subject.roots (dependent.map roots) .delete = .ok ())
    (translated : ofRows schema rows = .ok subject) (known : schema.table? table.name = some table)
    (row : (rows.keyed table.name)[rowKey]? = some fields)
    (expanded : table.expandKey rowKey = .ok combinations) {field : String} {leaf : LeafSchema}
    (declared : table.leaf? field = some leaf) (mandatory : leaf.decl.mandatory = true)
    (notKey : table.isKey field = false) : ¬ table.Shows fields field := by
  rintro ⟨name, text, held, value, told⟩
  obtain ⟨components, chosen⟩ := TableSchema.exists_mem_of_expandKey expanded
  obtain ⟨holds, own, same, checked⟩ :=
    exists_checked (by decide) accepted translated known row expanded chosen
  obtain ⟨values, made, kept⟩ := Except.bind_eq_ok_iff.mp checked
  refine Check.Place.not_mem_of_checkKept kept declared mandatory notKey
    ((mem_values_iff same made).mpr ⟨value, ?_⟩)
  exact TableSchema.gives_instanceNode_iff.mpr (Or.inr ⟨name, text, held, told⟩)

end Document

end ConfigVetting
