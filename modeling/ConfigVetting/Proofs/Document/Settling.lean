import ConfigVetting.Proofs.Document.FieldNodes
import ConfigVetting.Proofs.Document.Overlaying
import ConfigVetting.Proofs.Document.Siblings

/-! # Fields that are read back

What the fields of a row are once they have been put in a list instance and read back from it, field
by field (`ConfigVetting.TableSchema.getElem?_settled`): a leaf-list gathers the members of both
spellings of its name, and any other field keeps its text, a reference replaced by its key. A row of
which nothing is left reads back as the row without fields.
-/

namespace ConfigVetting

namespace TableSchema

variable {table : TableSchema} {fields : Fields}

/-- The member texts that a field adds to a leaf-list. -/
def memberTexts (table : TableSchema) (base name value : String) : List String :=
  if name ≠ placeholder ∧ table.mapLeaves = none ∧ baseName name = base ∧
      table.isKey base = false ∧
      ((Text.beforeLast listMark name).isSome ∨ table.isLeafList name = true) then
    (listMembers value).map referenced
  else []

/-- The text that a field is read back with, unless it belongs to a leaf-list. -/
def plainText? (table : TableSchema) (name value : String) : Option String :=
  if name = placeholder then none
  else
    match table.mapLeaves with
    | some (nameLeaf, valueLeaf) => some (if nameLeaf = valueLeaf then name else referenced value)
    | none =>
      if (Text.beforeLast listMark name).isSome ∨ table.isLeafList name = true ∨
          table.isKey name = true then none
      else some (referenced value)

/-- The members that the two spellings of a name add to its leaf-list. -/
def gathered (table : TableSchema) (fields : Fields) (base : String) : List String :=
  (fields[base]?.toList.flatMap fun value => table.memberTexts base base value) ++
    fields[listSpelling base]?.toList.flatMap fun value =>
      table.memberTexts base (listSpelling base) value

/-- The text of a field once the fields of a row are read back, the placeholder apart. -/
def readBack? (table : TableSchema) (fields : Fields) (name : String) : Option String :=
  let plain := fields[name]?.bind (table.plainText? name)
  match Text.beforeLast listMark name with
  | some base =>
    if table.gathered fields base = [] then plain
    else some (Text.joinWith "," (table.gathered fields base))
  | none => plain

/-- The text that a child of a list instance gives a field, unless it is a member of a leaf-list. -/
def entryOf? (table : TableSchema) (name : String) (child : Tree) : Option String :=
  match child.kind with
  | .leaf => if child.name = name ∧ table.isKey name = false then some (child.value.getD "") else none
  | .list =>
    match table.mapLeaves with
    | some (nameLeaf, valueLeaf) =>
      match child.leafValues nameLeaf, child.leafValues valueLeaf with
      | own :: _, value :: _ => if own = name then some value else none
      | _, _ => none
    | none => none
  | _ => none

/-- One child after another is read into the plain fields. -/
theorem getElem?_foldl_entryOf? (children : Forest Unit) (start : Fields) (name : String) :
    (children.foldl (fun (fields : Fields) child =>
      match child.kind with
      | .leaf =>
        if table.isKey child.name then fields else fields.insert child.name (child.value.getD "")
      | .list =>
        match table.mapLeaves with
        | some (nameLeaf, valueLeaf) =>
          match child.leafValues nameLeaf, child.leafValues valueLeaf with
          | name :: _, value :: _ => fields.insert name value
          | _, _ => fields
        | none => fields
      | _ => fields) start)[name]? =
      ((children.filterMap (table.entryOf? name)).getLast?).or start[name]? := by
  refine ByName.getElem?_foldl_of_step (fun fields child => ?_) children start
  unfold entryOf?
  cases child.kind with
  | leaf =>
      by_cases key : table.isKey child.name = true
      · by_cases own : child.name = name
        · subst own
          simp [key]
        · simp [key, own]
      · by_cases own : child.name = name
        · subst own
          simp [key]
        · simp [key, own, ByName.getElem?_insert]
  | list =>
      cases table.mapLeaves with
      | none => rfl
      | some leaves =>
          simp only
          split
          · rw [ByName.getElem?_insert]
            split <;> rfl
          · rfl
  | module => rfl
  | container => rfl
  | leafList => rfl

/-- One child after another is read into the members of leaf-lists. -/
theorem getElem?_foldl_members (children : Forest Unit) (start : ByName (List String))
    (name : String) :
    (children.foldl (fun (members : ByName (List String)) child =>
      if child.kind = .leafList then
        members.alter child.name fun values => some (values.getD [] ++ [child.value.getD ""])
      else members) start)[name]? =
      let own := (children.filter fun child => child.label.isMemberOf name).map fun child =>
        child.value.getD ""
      if own = [] then start[name]? else some (start[name]?.getD [] ++ own) := by
  induction children generalizing start with
  | nil => rfl
  | cons child children ih =>
      rw [List.foldl_cons, ih]
      by_cases member : child.label.isMemberOf name = true
      · have listed : child.kind = .leafList ∧ child.name = name := Label.isMemberOf_iff.mp member
        rw [if_pos listed.1, ByName.getElem?_alter, if_pos listed.2,
          List.filter_cons_of_pos (p := fun child : Tree => child.label.isMemberOf name) member,
          listed.2]
        simp only [List.map_cons, reduceCtorEq, ↓reduceIte, Option.getD_some, List.append_assoc,
          List.singleton_append]
        by_cases none : ((children.filter fun child => child.label.isMemberOf name).map
            fun child => child.value.getD "") = []
        · rw [if_pos none, none]
        · rw [if_neg none]
      · rw [List.filter_cons_of_neg (p := fun child : Tree => child.label.isMemberOf name) member]
        by_cases listed : child.kind = .leafList
        · have other : child.name ≠ name := fun same =>
            member (Label.isMemberOf_iff.mpr ⟨listed, same⟩)
          rw [if_pos listed, ByName.getElem?_alter, if_neg other]
        · rw [if_neg listed]

/-- What a field gives the plain fields of a list instance is its own text. -/
theorem filterMap_entryOf?_fieldNodes (table : TableSchema) (name value other : String) :
    (table.fieldNodes name value).filterMap (table.entryOf? other) =
      if name = other then (table.plainText? name value).toList else [] := by
  have becomes : table.Becomes name value (table.fieldNodes name value) := becomes_fieldNodes
  generalize table.fieldNodes name value = nodes at becomes
  unfold plainText?
  cases becomes with
  | nothing absent =>
      rcases absent with standIn | ⟨noEntries, key⟩
      · simp [standIn]
      · have listed : (Text.beforeLast listMark name).isSome ∨ table.isLeafList name = true ∨
            table.isKey name = true := by
          cases marked : Text.beforeLast listMark name with
          | some base => exact Or.inl rfl
          | none => exact Or.inr (Or.inr (baseName_of_unmarked marked ▸ key))
        simp [noEntries, listed]
  | @entry real nameLeaf valueLeaf mapped =>
      have entry : table.entryOf? other (.tree (.listInstance table.name name)
          [.tree (.leaf nameLeaf name) [], .tree (.leaf valueLeaf (referenced value)) []]) =
          if name = other then some (if nameLeaf = valueLeaf then name else referenced value)
          else none := by
        by_cases same : nameLeaf = valueLeaf
        · subst same
          simp [entryOf?, mapped, Node.leafValues, Node.tree, Node.kind, Node.children, Node.name,
            Node.value, Node.label, Label.leaf, Label.listInstance]
        · simp [entryOf?, mapped, Node.leafValues, Node.tree, Node.kind, Node.children, Node.name,
            Node.value, Node.label, Label.leaf, Label.listInstance, same, Ne.symm same]
      rw [if_neg real, mapped]
      simp only [List.filterMap_cons, List.filterMap_nil, entry]
      by_cases own : name = other <;> simp [own]
  | members real noEntries _ listed =>
      have none : ((listMembers value).map fun member =>
          Node.tree (.member (baseName name) (referenced member)) []).filterMap
            (table.entryOf? other) = [] := by
        refine List.filterMap_eq_nil_iff.mpr fun child member => ?_
        obtain ⟨one, _, rfl⟩ := List.mem_map.mp member
        rfl
      have both := or_assoc.mp (Or.inl listed : _ ∨ table.isKey name = true)
      rw [if_neg real, noEntries, none]
      simp [both]
  | leaf real noEntries notKey unmarked single =>
      rw [if_neg real, noEntries]
      by_cases own : name = other
      · subst own
        simp [entryOf?, Node.tree, Node.kind, Node.name, Node.value, Node.label, Label.leaf, notKey, unmarked,
          single]
      · simp [entryOf?, Node.tree, Node.kind, Node.name, Node.label, Label.leaf, own]

/-- What a field gives a leaf-list of a list instance. -/
theorem map_filter_fieldNodes (table : TableSchema) (base name value : String) :
    ((table.fieldNodes name value).filter fun child => child.label.isMemberOf base).map
      (fun child => child.value.getD "") = table.memberTexts base name value := by
  have becomes : table.Becomes name value (table.fieldNodes name value) := becomes_fieldNodes
  generalize table.fieldNodes name value = nodes at becomes
  unfold memberTexts
  cases becomes with
  | nothing absent =>
      rw [if_neg]
      · rfl
      · rintro ⟨real, _, rfl, notKey, _⟩
        rcases absent with standIn | ⟨_, key⟩
        · exact real standIn
        · exact Bool.eq_false_iff.mp notKey key
  | entry _ mapped =>
      rw [if_neg fun all => Option.some_ne_none _ (mapped.symm.trans all.2.1)]
      rfl
  | members real noEntries notKey listed =>
      by_cases own : baseName name = base
      · subst own
        rw [if_pos ⟨real, noEntries, rfl, notKey, listed⟩, List.filter_eq_self.mpr, List.map_map]
        · rfl
        · intro child member
          obtain ⟨one, _, rfl⟩ := List.mem_map.mp member
          exact Label.isMemberOf_iff.mpr ⟨rfl, rfl⟩
      · rw [if_neg fun all => own all.2.2.1, List.filter_eq_nil_iff.mpr, List.map_nil]
        intro child member isMember
        obtain ⟨one, _, rfl⟩ := List.mem_map.mp member
        exact own (Label.isMemberOf_iff.mp isMember).2
  | leaf _ _ _ unmarked single =>
      rw [if_neg fun all => by simp [unmarked, single] at all]
      rfl

theorem beforeLast_listSpelling (base : String) :
    Text.beforeLast listMark (listSpelling base) = some base :=
  Text.beforeLast_eq_some_iff.mpr rfl

/-- A field gives no members to a leaf-list that neither of its spellings names. -/
theorem memberTexts_of_ne {base name : String} (plain : name ≠ base)
    (listed : name ≠ listSpelling base) (value : String) : table.memberTexts base name value = [] := by
  refine if_neg fun all => ?_
  rcases eq_baseName_or_eq_listSpelling name with same | same
  · exact plain (same.trans all.2.2.1)
  · exact listed (same.trans (congrArg listSpelling all.2.2.1))

/-- The leaves of a key are no fields and no members of leaf-lists. -/
theorem entryOf?_keyLeaf {components : List String} {leaf : Tree}
    (member : leaf ∈ (table.keyNames.zip components).map fun field =>
      Node.tree (.leaf field.1 field.2) []) (name : String) :
    table.entryOf? name leaf = none ∧ leaf.label.isMemberOf name = false := by
  obtain ⟨field, inside, rfl⟩ := List.mem_map.mp member
  have key : table.isKey field.1 = true := List.contains_iff_mem.mpr (List.of_mem_zip inside).1
  refine ⟨if_neg fun own => ?_, rfl⟩
  have same : field.1 = name := own.1
  rw [← same, key] at own
  cases own.2

/-- The plain fields of the list instance of a row. -/
theorem getLast?_filterMap_entryOf? (table : TableSchema) (fields : Fields)
    (components : List String) (name : String) :
    ((table.instanceNode fields components).children.filterMap (table.entryOf? name)).getLast? =
      fields[name]?.bind (table.plainText? name) := by
  have children : (table.instanceNode fields components).children =
      ((table.keyNames.zip components).map fun field => Node.tree (.leaf field.1 field.2) []) ++
        fields.toList.flatMap fun field => table.fieldNodes field.1 field.2 := rfl
  rw [children, List.filterMap_append, List.filterMap_eq_nil_iff.mpr fun leaf member =>
    (entryOf?_keyLeaf member name).1, List.nil_append, List.filterMap_flatMap]
  simp only [filterMap_entryOf?_fieldNodes]
  rw [ByName.flatMap_toList_of_own fields fun entry other => if_neg other]
  cases fields[name]? with
  | none => rfl
  | some value =>
      simp only [Option.toList_some, List.flatMap_singleton, ↓reduceIte, Option.bind_some]
      cases table.plainText? name value <;> rfl

/-- The members of the leaf-lists of the list instance of a row. -/
theorem map_filter_instanceNode (table : TableSchema) (fields : Fields) (components : List String)
    (base : String) :
    ((table.instanceNode fields components).children.filter fun child =>
      child.label.isMemberOf base).map (fun child => child.value.getD "") =
        table.gathered fields base := by
  have children : (table.instanceNode fields components).children =
      ((table.keyNames.zip components).map fun field => Node.tree (.leaf field.1 field.2) []) ++
        fields.toList.flatMap fun field => table.fieldNodes field.1 field.2 := rfl
  rw [children, List.filter_append, List.filter_eq_nil_iff.mpr fun leaf member => by
    simp [(entryOf?_keyLeaf member base).2], List.nil_append, List.filter_flatMap, List.map_flatMap]
  simp only [map_filter_fieldNodes]
  exact ByName.flatMap_toList_of_two fields (compare_listSpelling base) fun entry plain listed =>
    memberTexts_of_ne plain listed entry.2

/-- Under the marked name the gathered members are read back, and without any the plain text. -/
theorem readBack?_listSpelling (table : TableSchema) (fields : Fields) (base : String) :
    table.readBack? fields (listSpelling base) =
      if table.gathered fields base = [] then
        fields[listSpelling base]?.bind (table.plainText? (listSpelling base))
      else some (Text.joinWith "," (table.gathered fields base)) := by
  rw [readBack?, beforeLast_listSpelling]

/-- Under a name without a mark its own text is read back. -/
theorem readBack?_of_unmarked {name : String} (unmarked : Text.beforeLast listMark name = none)
    (fields : Fields) :
    table.readBack? fields name = fields[name]?.bind (table.plainText? name) := by
  rw [readBack?, unmarked]

/-- The placeholder is never read back. -/
theorem readBack?_placeholder (table : TableSchema) (fields : Fields) :
    table.readBack? fields placeholder = none := by
  rw [readBack?_of_unmarked (by decide)]
  exact Option.bind_eq_none_iff.mpr fun value _ => if_pos rfl

/-- Fields with those of leaf-lists, each in the list spelling of its name. -/
def withLists (plain : Fields) (members : ByName (List String)) : Fields :=
  members.toList.foldl
    (fun fields list => fields.insert (listSpelling list.1) (Text.joinWith "," list.2)) plain

/-- The fields of a list instance are its leaves and entries with its leaf-lists, and if there are
none, the placeholder. -/
theorem exists_instanceFields (table : TableSchema) (node : Tree) :
    ∃ (plain : Fields) (members : ByName (List String)),
      (∀ name : String, plain[name]? = (node.children.filterMap (table.entryOf? name)).getLast?) ∧
      (∀ base : String, members[base]? =
        let texts := (node.children.filter fun child => child.label.isMemberOf base).map fun child =>
          child.value.getD ""
        if texts = [] then none else some texts) ∧
      table.instanceFields node =
        if (withLists plain members).isEmpty then
          (withLists plain members).insert placeholder placeholder
        else withLists plain members := by
  refine ⟨_, _, fun name => ?_, fun base => ?_, rfl⟩
  · exact (table.getElem?_foldl_entryOf? _ ∅ name).trans Option.or_none
  · rw [getElem?_foldl_members]
    rfl

/-- The text that a list instance gives a field, the placeholder apart. -/
def fieldOf? (table : TableSchema) (node : Tree) (name : String) : Option String :=
  let plain := (node.children.filterMap (table.entryOf? name)).getLast?
  match Text.beforeLast listMark name with
  | some base =>
    let texts := (node.children.filter fun child => child.label.isMemberOf base).map fun child =>
      child.value.getD ""
    if texts = [] then plain else some (Text.joinWith "," texts)
  | none => plain

/-- The fields of a list instance are read back one by one, and if there are none, as the
placeholder. -/
theorem exists_fieldOf? (table : TableSchema) (node : Tree) :
    ∃ kept : Fields, (∀ name : String, kept[name]? = table.fieldOf? node name) ∧
      table.instanceFields node =
        if kept.isEmpty then kept.insert placeholder placeholder else kept := by
  obtain ⟨plain, members, plainEq, membersEq, read⟩ := table.exists_instanceFields node
  refine ⟨withLists plain members, fun name => ?_, read⟩
  have apart : (members.toList.map fun list => listSpelling list.1).Nodup := by
    have spelled := members.nodup_toList.map (f := listSpelling) fun first second same =>
      (String.push_inj.mp same).1
    rwa [List.map_map] at spelled
  rw [withLists, ByName.getElem?_foldl_insert apart, plainEq, fieldOf?]
  cases marked : Text.beforeLast listMark name with
  | none =>
      have none : members.toList.find? (fun list => listSpelling list.1 = name) = none := by
        refine List.find?_eq_none.mpr fun list _ same => ?_
        rw [← of_decide_eq_true same, beforeLast_listSpelling] at marked
        cases marked
      rw [none]
      rfl
  | some base =>
      obtain rfl : name = listSpelling base := Text.beforeLast_eq_some_iff.mp marked
      have same : members.toList.find? (fun list => listSpelling list.1 = listSpelling base) =
          members.toList.find? fun list => list.1 = base := by
        congr 1
        funext list
        exact decide_eq_decide.mpr ⟨fun equal => (String.push_inj.mp equal).1, congrArg _⟩
      rw [same, members.find?_toList, membersEq]
      simp only
      split <;> rfl

/-- The list instance of a row gives each field the text that is read back. -/
theorem fieldOf?_instanceNode (table : TableSchema) (fields : Fields) (components : List String)
    (name : String) :
    table.fieldOf? (table.instanceNode fields components) name = table.readBack? fields name := by
  simp only [fieldOf?, readBack?, getLast?_filterMap_entryOf?, map_filter_instanceNode]

/-- The fields of a row are read back one by one, and if there are none, as the placeholder. -/
theorem exists_settled (table : TableSchema) (fields : Fields) :
    ∃ kept : Fields, (∀ name : String, kept[name]? = table.readBack? fields name) ∧
      table.settled fields = if kept.isEmpty then kept.insert placeholder placeholder else kept := by
  obtain ⟨kept, found, read⟩ := table.exists_fieldOf? (table.instanceNode fields [])
  exact ⟨kept, fun name => (found name).trans (table.fieldOf?_instanceNode fields [] name), read⟩

/-- A row of which a field is read back is read back field by field. -/
theorem getElem?_settled {kept text : String} (there : table.readBack? fields kept = some text)
    (name : String) : (table.settled fields)[name]? = table.readBack? fields name := by
  obtain ⟨plain, found, settled⟩ := table.exists_settled fields
  have filled : ¬plain.isEmpty = true := fun empty => by
    have none := ByName.isEmpty_iff.mp empty kept
    rw [found, there] at none
    cases none
  rw [settled, if_neg filled, found]

/-- A row of which no field is read back is read back as the row without fields. -/
theorem settled_of_none (none : ∀ name, table.readBack? fields name = none) :
    table.settled fields = (∅ : Fields).insert placeholder placeholder := by
  obtain ⟨plain, found, settled⟩ := table.exists_settled fields
  have empty : plain.isEmpty = true := ByName.isEmpty_iff.mpr fun name => (found name).trans (none name)
  rw [settled, if_pos empty, Std.ExtTreeMap.isEmpty_iff.mp empty]

end TableSchema

end ConfigVetting
