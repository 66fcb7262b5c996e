import ConfigVetting.Proofs.Document.Merging
import ConfigVetting.Proofs.Document.Settling
import ConfigVetting.Proofs.Schema.Tables

/-! # Copies of list instances

A row whose key names a value twice stands for several list instances of one key. Merged into a
document these become one, which is read back like each of them
(`ConfigVetting.TableSchema.instanceFields_foldl_joined`). This needs the names and the values of
entries to stand in different leaves, for else the second copy overwrites the names of the first.
-/

namespace ConfigVetting

namespace Forest

/-- Siblings of different identities are determined by their order and by the node of each. -/
theorem singles_eq_of_identities {first second : Forest Unit} (distinct : first.identities.Nodup)
    (order : first.identities = second.identities)
    (each : ∀ identity, first.single? identity = second.single? identity) :
    first.singles = second.singles := by
  have fromIdentities : ∀ siblings : Forest Unit, siblings.identities.Nodup →
      siblings.singles = siblings.identities.filterMap siblings.single? := by
    intro siblings distinct
    rw [identities, List.filterMap_map]
    refine (List.filterMap_some (l := siblings.singles)).symm.trans
      (List.filterMap_congr fun node member => ?_)
    obtain ⟨inside, single⟩ := mem_singles_iff.mp member
    exact (single?_of_mem distinct inside single).symm
  rw [fromIdentities first distinct, fromIdentities second (order ▸ distinct), order, funext each]

/-- Where joining changes no node of the source, the nodes of the source are left, as far as they are
single. -/
theorem singles_join {siblings source : Forest Unit} (distinct : source.identities.Nodup)
    (order : siblings.identities = source.identities)
    (each : ∀ identity, joinEither (siblings.single? identity) (source.single? identity) =
      source.single? identity) : (siblings.join source).singles = source.singles := by
  have kept : (siblings.join source).identities = source.identities := by
    have known : ∀ identity ∈ source.identities, ¬decide (identity ∉ source.identities) = true :=
      fun identity member => by simpa using member
    rw [identities_join distinct, order, List.filter_eq_nil_iff.mpr known, List.append_nil]
  refine singles_eq_of_identities (kept ▸ distinct) kept fun identity => ?_
  rw [single?_join distinct, each]

end Forest

/-- Whether two nodes have the same children, but for the places of the members of leaf-lists. -/
structure Node.SameBelow (first second : Tree) : Prop where
  singles : first.children.singles = second.children.singles
  members : ∀ name, first.children.membersOf name = second.children.membersOf name

namespace TableSchema

open Forest

variable {table : TableSchema} {fields : Fields}

/-- Where members of leaf-lists stand among the children makes no difference to the fields. -/
theorem instanceFields_congr {first second : Tree} (same : first.SameBelow second) :
    table.instanceFields first = table.instanceFields second := by
  have entries : ∀ (node : Tree) name, node.children.filterMap (table.entryOf? name) =
      node.children.singles.filterMap (table.entryOf? name) := by
    intro node name
    rw [singles, List.filterMap_filter]
    refine List.filterMap_congr fun child _ => ?_
    by_cases listed : child.kind = .leafList
    · simp [listed, entryOf?]
    · simp [listed]
  obtain ⟨plain, members, plainEq, membersEq, read⟩ := table.exists_instanceFields first
  obtain ⟨otherPlain, otherMembers, otherPlainEq, otherMembersEq, otherRead⟩ :=
    table.exists_instanceFields second
  have samePlain : plain = otherPlain := Std.ExtTreeMap.ext_getElem? fun name => by
    rw [plainEq, otherPlainEq, entries, entries, same.singles]
  have sameMembers : members = otherMembers := Std.ExtTreeMap.ext_getElem? fun base => by
    have own : (first.children.filter fun child => child.label.isMemberOf base) =
        second.children.filter fun child => child.label.isMemberOf base := same.members base
    rw [membersEq, otherMembersEq, own]
  rw [read, otherRead, samePlain, sameMembers]

/-- The leaves of the key of a list instance. -/
def keyLeaves (table : TableSchema) (components : List String) : Forest Unit :=
  (table.keyNames.zip components).map fun field => .tree (.leaf field.1 field.2) []

/-- The nodes of the fields of a row. -/
def fieldsNodes (table : TableSchema) (fields : Fields) : Forest Unit :=
  fields.toList.flatMap fun field => table.fieldNodes field.1 field.2

/-- An instance holds its keys first, then the nodes of its fields. -/
theorem children_instanceNode (table : TableSchema) (fields : Fields) (components : List String) :
    (table.instanceNode fields components).children =
      table.keyLeaves components ++ table.fieldsNodes fields := rfl

/-- The identity of the node of a field that is no leaf-list. -/
def fieldIdentity (table : TableSchema) (name : String) : Label :=
  match table.mapLeaves with
  | some _ => .listInstance table.name name
  | none => .plain name .leaf

/-- Fields with different names have different identities. -/
theorem fieldIdentity_inj {first second : String}
    (same : table.fieldIdentity first = table.fieldIdentity second) : first = second := by
  unfold fieldIdentity at same
  cases mapped : table.mapLeaves with
  | some leaves =>
      rw [mapped] at same
      exact Option.some.inj (congrArg Label.key same)
  | none =>
      rw [mapped] at same
      exact congrArg Label.name same

/-- The node of a field that is no leaf-list. -/
def fieldNode (table : TableSchema) (name value : String) : Tree :=
  match table.mapLeaves with
  | some (nameLeaf, valueLeaf) =>
    .tree (.listInstance table.name name)
      [.tree (.leaf nameLeaf name) [], .tree (.leaf valueLeaf (referenced value)) []]
  | none => .tree (.leaf name (referenced value)) []

theorem identity_fieldNode (table : TableSchema) (name value : String) :
    (table.fieldNode name value).label.identity = table.fieldIdentity name := by
  unfold fieldNode fieldIdentity
  cases table.mapLeaves <;> rfl

/-- An entry joined to another one of its name takes its place, if names and values stand in different
leaves. -/
theorem joined_entry {leaves : String × String} (apart : leaves.1 ≠ leaves.2) (label : Label)
    (name first second : String) (inner : label.kind = .list) :
    let entry (value : String) := Node.tree label
      [.tree (.leaf leaves.1 name) [], .tree (.leaf leaves.2 value) []]
    joined (entry first) (entry second) = entry second := by
  intro entry
  have same : (entry first).children.join (entry second).children = (entry second).children := by
    simp [entry, Node.tree, Node.children, join, joinLists, leafLists, joinEach, Node.joinInto,
      Node.kind, Node.label, Node.withValue, Label.leaf, Label.sameNode, apart]
  have noLeaf : (entry second).kind ≠ .leaf := fun leaf => by
    rw [show (entry second).kind = label.kind from rfl, inner] at leaf
    cases leaf
  rw [joined_of_inner (entry first) noLeaf, same]
  rfl

/-- The node of a field joined to another one of the field takes its place. -/
theorem joined_fieldNode (apart : ∀ leaves ∈ table.mapLeaves, leaves.1 ≠ leaves.2)
    (name first second : String) :
    joined (table.fieldNode name first) (table.fieldNode name second) =
      table.fieldNode name second := by
  unfold fieldNode
  cases mapped : table.mapLeaves with
  | some leaves => exact joined_entry (apart leaves mapped) _ _ _ _ rfl
  | none => rfl

/-- The nodes of a field that are no members of a leaf-list are one node at most. -/
theorem singles_fieldNodes (table : TableSchema) (name value : String) :
    (table.fieldNodes name value).singles = [] ∨
      (table.fieldNodes name value).singles = [table.fieldNode name value] ∧
        (table.mapLeaves = none → table.isKey name = false) := by
  have becomes : table.Becomes name value (table.fieldNodes name value) := becomes_fieldNodes
  generalize table.fieldNodes name value = nodes at becomes
  unfold fieldNode
  cases becomes with
  | nothing => exact Or.inl rfl
  | entry _ mapped =>
      rw [mapped]
      exact Or.inr ⟨rfl, nofun⟩
  | members =>
      refine Or.inl (List.filter_eq_nil_iff.mpr fun node member => ?_)
      obtain ⟨one, _, rfl⟩ := List.mem_map.mp member
      simp [Node.kind, Node.tree, Node.label, Label.member]
  | leaf _ noEntries notKey =>
      rw [noEntries]
      exact Or.inr ⟨rfl, fun _ => notKey⟩

/-- The nodes of the fields of a row that are no members of leaf-lists are nodes of fields. -/
theorem mem_singles_fieldsNodes {node : Tree} (member : node ∈ (table.fieldsNodes fields).singles) :
    ∃ name value : String, fields[name]? = some value ∧ node = table.fieldNode name value ∧
      (table.mapLeaves = none → table.isKey name = false) := by
  obtain ⟨inside, single⟩ := mem_singles_iff.mp member
  obtain ⟨field, held, own⟩ := List.mem_flatMap.mp inside
  have one : node ∈ (table.fieldNodes field.1 field.2).singles := mem_singles_iff.mpr ⟨own, single⟩
  rcases table.singles_fieldNodes field.1 field.2 with none | ⟨only, noKey⟩
  · rw [none] at one
    cases one
  · rw [only, List.mem_singleton] at one
    exact ⟨field.1, field.2, Std.ExtTreeMap.mem_toList_iff_getElem?_eq_some.mp held, one, noKey⟩

private theorem identities_keyLeaves {components : List String}
    (count : components.length = table.segments.length) :
    (table.keyLeaves components).identities = table.keyNames.map fun name => .plain name .leaf := by
  have single : (table.keyLeaves components).singles = table.keyLeaves components := by
    refine List.filter_eq_self.mpr fun node member => ?_
    obtain ⟨field, _, rfl⟩ := List.mem_map.mp member
    rfl
  have names : (table.keyNames.zip components).map Prod.fst = table.keyNames :=
    List.map_fst_zip (by rw [keyNames, List.length_map, count])
  rw [identities, single, keyLeaves, List.map_map]
  conv_rhs => rw [← names, List.map_map]
  rfl

/-- The nodes of different fields have different identities, and none that of a key component. -/
theorem nodup_identities_fieldsNodes (table : TableSchema) (fields : Fields) :
    (table.fieldsNodes fields).identities.Nodup ∧
      ∀ name, table.isKey name = true → .plain name .leaf ∉ (table.fieldsNodes fields).identities := by
  have own : ∀ name value, ∀ identity ∈ identities (table.fieldNodes name value),
      identity = table.fieldIdentity name := by
    intro name value identity member
    rcases table.singles_fieldNodes name value with none | ⟨one, _⟩
    · rw [identities, none] at member
      cases member
    · rw [identities, one, List.map_singleton, List.mem_singleton] at member
      exact member.trans (table.identity_fieldNode name value)
  have once : ∀ name value, (identities (table.fieldNodes name value)).Nodup := by
    intro name value
    rcases table.singles_fieldNodes name value with none | ⟨one, _⟩
    · rw [identities, none]
      exact List.nodup_nil
    · rw [identities, one]
      exact List.nodup_singleton _
  have whole : (table.fieldsNodes fields).identities =
      fields.toList.flatMap fun field => identities (table.fieldNodes field.1 field.2) := by
    unfold fieldsNodes identities singles
    rw [List.filter_flatMap, List.map_flatMap]
  refine ⟨?_, fun name key member => ?_⟩
  · rw [whole]
    refine List.nodup_flatMap.mpr ⟨fun field _ => once field.1 field.2, ?_⟩
    refine (List.pairwise_map.mp fields.nodup_toList).imp fun {first second} different => ?_
    intro identity left right
    refine different (table.fieldIdentity_inj ?_)
    exact (own _ _ _ left).symm.trans (own _ _ _ right)
  · obtain ⟨node, inside, named⟩ := List.mem_map.mp member
    obtain ⟨field, value, _, rfl, noKey⟩ := mem_singles_fieldsNodes inside
    rw [identity_fieldNode, fieldIdentity] at named
    cases mapped : table.mapLeaves with
    | some leaves =>
        rw [mapped] at named
        exact (Label.isSolid_listInstance _ _).noLeaf (congrArg Label.kind named)
    | none =>
        rw [mapped] at named
        cases named
        rw [noKey mapped] at key
        cases key

/-- Keys are no members of a leaf-list. -/
theorem membersOf_keyLeaves (table : TableSchema) (components : List String) (name : String) :
    (table.keyLeaves components).membersOf name = [] := by
  refine List.filter_eq_nil_iff.mpr fun node member => ?_
  obtain ⟨field, _, rfl⟩ := List.mem_map.mp member
  simp [Node.label, Node.tree, Label.leaf, Label.isMemberOf]

/-- Of the nodes of the fields of two rows, those of the second take the place of those of the
first. -/
theorem joinEither_fieldsNodes (apart : ∀ leaves ∈ table.mapLeaves, leaves.1 ≠ leaves.2)
    (fields other : Fields) (identity : Label) :
    joinEither ((table.fieldsNodes fields).single? identity)
        ((table.fieldsNodes other).single? identity) =
      ((table.fieldsNodes other).single? identity).or
        ((table.fieldsNodes fields).single? identity) := by
  cases left : (table.fieldsNodes fields).single? identity with
  | none => exact Option.or_none.symm
  | some target =>
      cases right : (table.fieldsNodes other).single? identity with
      | none => rfl
      | some node =>
          obtain ⟨inside, single, named⟩ := of_single?_eq_some left
          obtain ⟨otherInside, otherSingle, otherNamed⟩ := of_single?_eq_some right
          obtain ⟨name, value, _, rfl, _⟩ := mem_singles_fieldsNodes (mem_singles_iff.mpr ⟨inside, single⟩)
          obtain ⟨again, text, _, rfl, _⟩ :=
            mem_singles_fieldsNodes (mem_singles_iff.mpr ⟨otherInside, otherSingle⟩)
          rw [identity_fieldNode] at named otherNamed
          cases table.fieldIdentity_inj (named.trans otherNamed.symm)
          exact congrArg some (joined_fieldNode apart name value text)

variable {first second : List String}

private theorem identities_children_instanceNode (count : first.length = table.segments.length) :
    (table.instanceNode fields first).children.identities =
      table.keyNames.map (fun name => .plain name .leaf) ++ (table.fieldsNodes fields).identities := by
  rw [children_instanceNode, identities_append, identities_keyLeaves count]

/-- The children of a list instance have different identities. -/
theorem nodup_identities_instanceNode (sound : table.IsSound)
    (count : first.length = table.segments.length) :
    (table.instanceNode fields first).children.identities.Nodup := by
  obtain ⟨distinct, noKey⟩ := table.nodup_identities_fieldsNodes fields
  rw [identities_children_instanceNode count]
  refine List.nodup_append.mpr ⟨sound.apart.map fun _ _ equal => congrArg Label.name equal,
    distinct, ?_⟩
  rintro identity key _ field rfl
  obtain ⟨name, named, rfl⟩ := List.mem_map.mp key
  exact noKey name (List.contains_iff_mem.mpr named) field

/-- Of the children of two list instances, those of the second take the place of those of the first. -/
theorem joinEither_instanceNode (apart : ∀ leaves ∈ table.mapLeaves, leaves.1 ≠ leaves.2)
    (fields other : Fields) (firstCount : first.length = table.segments.length)
    (secondCount : second.length = table.segments.length) (identity : Label) :
    joinEither ((table.instanceNode fields first).children.single? identity)
        ((table.instanceNode other second).children.single? identity) =
      ((table.instanceNode other second).children.single? identity).or
        ((table.instanceNode fields first).children.single? identity) := by
  have sameKeys : (table.keyLeaves first).identities = (table.keyLeaves second).identities :=
    (identities_keyLeaves firstCount).trans (identities_keyLeaves secondCount).symm
  rw [children_instanceNode, children_instanceNode, single?_append, single?_append]
  cases left : (table.keyLeaves first).single? identity with
  | none =>
      have absent : (table.keyLeaves second).single? identity = none :=
        single?_eq_none_iff.mpr (sameKeys ▸ single?_eq_none_iff.mp left)
      rw [absent, Option.none_or, Option.none_or]
      exact joinEither_fieldsNodes apart fields other identity
  | some leaf =>
      have inside : identity ∈ (table.keyLeaves first).identities :=
        isSome_single?_iff.mp (by rw [left]; rfl)
      obtain ⟨other, right⟩ := Option.isSome_iff_exists.mp
        (isSome_single?_iff.mpr (sameKeys ▸ inside))
      obtain ⟨inFirst, _, firstNamed⟩ := of_single?_eq_some left
      obtain ⟨inSecond, _, secondNamed⟩ := of_single?_eq_some right
      obtain ⟨field, _, rfl⟩ := List.mem_map.mp inFirst
      obtain ⟨otherField, _, rfl⟩ := List.mem_map.mp inSecond
      have named : field.1 = otherField.1 :=
        congrArg Label.name (firstNamed.trans secondNamed.symm)
      rw [right, Option.some_or, Option.some_or, Option.some_or, joinEither, joined_of_leaf _ rfl,
        ← named]
      rfl

/-- A list instance of a row joined to another one of the row has the children of the former. -/
theorem sameBelow_joined (sound : table.IsSound)
    (apart : ∀ leaves ∈ table.mapLeaves, leaves.1 ≠ leaves.2)
    (firstCount : first.length = table.segments.length)
    (secondCount : second.length = table.segments.length) {target : Tree}
    (same : target.SameBelow (table.instanceNode fields first)) :
    (joined target (table.instanceNode fields second)).SameBelow
      (table.instanceNode fields second) := by
  have distinct : (table.instanceNode fields second).children.identities.Nodup :=
    nodup_identities_instanceNode sound secondCount
  have sameOrder : target.children.identities =
      (table.instanceNode fields second).children.identities := by
    rw [identities_children_instanceNode secondCount, ← identities_children_instanceNode firstCount,
      identities, same.singles]
    rfl
  have each : ∀ identity, joinEither (target.children.single? identity)
      ((table.instanceNode fields second).children.single? identity) =
        (table.instanceNode fields second).children.single? identity := by
    intro identity
    have inTarget : target.children.single? identity =
        (table.instanceNode fields first).children.single? identity := by
      rw [single?, same.singles]
      rfl
    rw [inTarget, joinEither_instanceNode apart fields fields firstCount secondCount]
    cases found : (table.instanceNode fields second).children.single? identity with
    | some node => rfl
    | none =>
        refine single?_eq_none_iff.mpr fun inside => single?_eq_none_iff.mp found ?_
        rwa [identities_children_instanceNode secondCount,
          ← identities_children_instanceNode firstCount]
  have inner : (table.instanceNode fields second).kind ≠ .leaf :=
    (Label.isSolid_listInstance _ _).noLeaf
  rw [joined_of_inner target inner]
  refine ⟨singles_join distinct sameOrder each, fun name => ?_⟩
  refine (membersOf_join distinct name).trans ?_
  rw [same.members, children_instanceNode, children_instanceNode, membersOf_append,
    membersOf_append, membersOf_keyLeaves, membersOf_keyLeaves, List.nil_append]
  exact ite_eq_right_iff.mpr fun empty => empty.symm ▸ rfl

/-- The list instances of a row that are joined to one of them leave one that is read back as the
row. -/
theorem instanceFields_foldl_joined (sound : table.IsSound)
    (apart : ∀ leaves ∈ table.mapLeaves, leaves.1 ≠ leaves.2) {copies : List (List String)}
    (counts : ∀ components ∈ copies, components.length = table.segments.length)
    (count : first.length = table.segments.length) :
    table.instanceFields
      ((copies.map (table.instanceNode fields)).foldl joined (table.instanceNode fields first)) =
        table.settled fields := by
  suffices general : ∀ target : Tree, target.SameBelow (table.instanceNode fields first) →
      table.instanceFields ((copies.map (table.instanceNode fields)).foldl joined target) =
        table.settled fields from general _ ⟨rfl, fun _ => rfl⟩
  induction copies generalizing first with
  | nil =>
      intro target same
      exact (instanceFields_congr same).trans (table.instanceFields_instanceNode fields first)
  | cons components copies ih =>
      rw [List.forall_mem_cons] at counts
      intro target same
      exact ih counts.2 counts.1 _ (sameBelow_joined sound apart count counts.1 same)

end TableSchema

end ConfigVetting
