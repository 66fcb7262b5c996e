import ConfigVetting.Proofs.Document.Siblings
import Mathlib.Data.List.TakeWhile

/-! # What a merge means

Merging two clear documents merges the siblings below every path of identities
(`ConfigVetting.Document.isMerged_merge`): a node that is no member of a leaf-list stands there if
either side has it, a leaf takes the value of the source, the members of a leaf-list are those of the
source if it has any, and what is new stands behind what was there. One level of this is read off the
joined siblings, and a node that both sides have is joined on the level below.
-/

namespace ConfigVetting

namespace Forest

/-- Whether siblings are those of a destination with those of a source merged into them. -/
structure IsMerged (destination source merged : Forest Unit) : Prop where
  /-- A node is there that is on either side. -/
  isSome_iff : ∀ identity, (merged.single? identity).isSome ↔
    (destination.single? identity).isSome ∨ (source.single? identity).isSome
  /-- A leaf has the value of the source, if it has the leaf. -/
  value_eq : ∀ name, (merged.single? (.plain name .leaf)).map Node.value =
    ((source.single? (.plain name .leaf)).or (destination.single? (.plain name .leaf))).map Node.value
  /-- A leaf-list has the members of the source, if it has any. -/
  members_eq : ∀ name, (merged.membersOf name).map Node.value =
    if source.membersOf name = [] then (destination.membersOf name).map Node.value
    else (source.membersOf name).map Node.value
  /-- The nodes of the destination come first, in their order, and then those that are new. -/
  order_eq : merged.identities =
    destination.identities ++ source.identities.filter fun identity =>
      identity ∉ destination.identities

private theorem IsMerged.of_source_nil (destination : Forest Unit) : IsMerged destination [] destination where
  isSome_iff _ := (or_iff_left Bool.false_ne_true).symm
  value_eq _ := rfl
  members_eq _ := rfl
  order_eq := (List.append_nil _).symm

private theorem IsMerged.of_destination_nil (source : Forest Unit) : IsMerged [] source source where
  isSome_iff _ := (or_iff_right Bool.false_ne_true).symm
  value_eq _ := congrArg _ Option.or_none.symm
  members_eq name := by
    by_cases empty : source.membersOf name = []
    · rw [if_pos empty, empty]
      rfl
    · rw [if_neg empty]
  order_eq := by
    have all : ∀ identity ∈ source.identities, decide (identity ∉ identities []) = true :=
      fun identity _ => decide_eq_true List.not_mem_nil
    rw [List.filter_eq_self.mpr all]
    rfl

end Forest

namespace Forest

/-- A leaf that is joined takes the new value. -/
theorem joined_of_leaf (target : Tree) {node : Tree} (leaf : node.kind = .leaf) :
    joined target node = target.withValue node.value :=
  if_pos leaf

/-- A node with children that is joined keeps its label and joins the children. -/
theorem joined_of_inner (target : Tree) {node : Tree} (inner : node.kind ≠ .leaf) :
    joined target node = target.withChildren (target.children.join node.children) :=
  if_neg inner

private theorem identity_joined (target node : Tree) :
    (joined target node).label.identity = target.label.identity := by
  unfold joined
  split <;> rfl

theorem kind_joined (target node : Tree) : (joined target node).kind = target.kind := by
  unfold joined
  split <;> rfl

section Members

variable {members : Forest Unit} {name : String}

/-- Replacing the members of a leaf-list keeps the other nodes. -/
theorem singles_withMembers (siblings : Forest Unit)
    (own : ∀ node ∈ members, node.label.isMemberOf name) :
    (siblings.withMembers name members).singles = siblings.singles := by
  have none : members.singles = [] := by
    refine List.filter_eq_nil_iff.mpr fun node member => ?_
    have listed : node.kind = .leafList := (Label.isMemberOf_iff.mp (own node member)).1
    simp [listed]
  have others : singles (siblings.filter fun node => !node.label.isMemberOf name) =
      siblings.singles := by
    rw [singles, List.filter_filter]
    refine List.filter_congr fun node _ => ?_
    by_cases listed : node.kind = .leafList
    · simp [listed]
    · have outside : node.label.isMemberOf name = false :=
        Bool.eq_false_iff.mpr fun member => listed (Label.isMemberOf_iff.mp member).1
      rw [outside]
      simp
  rw [withMembers, singles_append, singles_append, none, List.append_nil, ← singles_append,
    List.take_append_drop, others]

/-- Replacing the members of a leaf-list leaves the new members there, and the other lists. -/
theorem membersOf_withMembers (siblings : Forest Unit)
    (own : ∀ node ∈ members, node.label.isMemberOf name) (other : String) :
    (siblings.withMembers name members).membersOf other =
      if other = name then members else siblings.membersOf other := by
  have rest : (withMembers siblings name members).membersOf other =
      membersOf ((siblings.filter fun node => !node.label.isMemberOf name).take
        (siblings.findIdx fun node => node.label.isMemberOf name)) other ++ members.membersOf other ++
      membersOf ((siblings.filter fun node => !node.label.isMemberOf name).drop
        (siblings.findIdx fun node => node.label.isMemberOf name)) other := by
    rw [withMembers, membersOf_append, membersOf_append]
  by_cases same : other = name
  · subst same
    have none : membersOf (siblings.filter fun node => !node.label.isMemberOf other) other = [] := by
      rw [membersOf, List.filter_filter]
      exact List.filter_eq_nil_iff.mpr fun node _ => by simp
    have parts := none
    rw [← List.take_append_drop (siblings.findIdx fun node => node.label.isMemberOf other)
      (siblings.filter fun node => !node.label.isMemberOf other), membersOf_append,
      List.append_eq_nil_iff] at parts
    rw [rest, parts.1, parts.2, if_pos rfl, List.append_nil, List.nil_append]
    exact List.filter_eq_self.mpr own
  · have none : members.membersOf other = [] := by
      refine List.filter_eq_nil_iff.mpr fun node member listed => same ?_
      have inOwn := Label.isMemberOf_iff.mp (own node member)
      exact (Label.isMemberOf_iff.mp listed).2.symm.trans inOwn.2
    rw [rest, none, List.append_nil, ← membersOf_append, List.take_append_drop, if_neg same,
      membersOf, List.filter_filter]
    refine List.filter_congr fun node _ => ?_
    by_cases listed : node.label.isMemberOf other = true
    · have outside : node.label.isMemberOf name = false := by
        have inOther : node.label.kind = .leafList ∧ node.label.name = other := by
          simpa [Label.isMemberOf] using listed
        simp [Label.isMemberOf, inOther.2, same]
      rw [listed, outside]
      rfl
    · rw [Bool.not_eq_true] at listed
      rw [listed, Bool.false_and]

end Members

/-- The leaf-lists of a source are its names of members with the members. -/
theorem leafLists_eq (source : Forest Unit) :
    ∃ names : List String, source.leafLists = names.map (fun name => (name, source.membersOf name)) ∧
      ∀ name, name ∈ names ↔ source.membersOf name ≠ [] := by
  let listed := source.filter fun node => node.kind = .leafList
  refine ⟨(listed.map Node.name).eraseDups, List.map_congr_left fun name _ => ?_, fun name => ?_⟩
  · refine Prod.ext rfl ?_
    change listed.filter (fun node => node.name = name) = source.membersOf name
    rw [List.filter_filter]
    exact List.filter_congr fun node _ => Bool.and_comm ..
  · rw [List.mem_eraseDups, List.mem_map, Ne, membersOf, List.filter_eq_nil_iff]
    simp only [listed, List.mem_filter, decide_eq_true_iff, Label.isMemberOf_iff, not_forall,
      not_not, exists_prop, and_assoc]
    rfl

/-- Replacing leaf-lists one by one keeps the other nodes and leaves the members of the lists that
were replaced. -/
theorem foldl_withMembers_spec (source : Forest Unit) (names : List String) (siblings : Forest Unit) :
    let replaced := (names.map fun name => (name, source.membersOf name)).foldl
      (fun siblings (name, members) => siblings.withMembers name members) siblings
    replaced.singles = siblings.singles ∧ ∀ name, replaced.membersOf name =
      if name ∈ names then source.membersOf name else siblings.membersOf name := by
  induction names generalizing siblings with
  | nil => exact ⟨rfl, fun name => rfl⟩
  | cons first names ih =>
      have own : ∀ node ∈ source.membersOf first, node.label.isMemberOf first :=
        fun node member => isMemberOf_of_mem_membersOf member
      obtain ⟨singles, members⟩ := ih (siblings.withMembers first (source.membersOf first))
      refine ⟨singles.trans (singles_withMembers siblings own), fun name => ?_⟩
      refine (members name).trans ?_
      rw [membersOf_withMembers siblings own]
      by_cases same : name = first
      · subst same
        simp
      · simp [same]

private theorem singles_joinLists (siblings source : Forest Unit) :
    (siblings.joinLists source).singles = siblings.singles := by
  obtain ⟨names, lists, _⟩ := source.leafLists_eq
  rw [joinLists, lists]
  exact (foldl_withMembers_spec source names siblings).1

private theorem membersOf_joinLists (siblings source : Forest Unit) (name : String) :
    (siblings.joinLists source).membersOf name =
      if source.membersOf name = [] then siblings.membersOf name else source.membersOf name := by
  obtain ⟨names, lists, named⟩ := source.leafLists_eq
  rw [joinLists, lists, (foldl_withMembers_spec source names siblings).2 name]
  by_cases empty : source.membersOf name = []
  · rw [if_pos empty, if_neg fun member => (named name).mp member empty]
  · rw [if_neg empty, if_pos ((named name).mpr empty)]

/-- What two forests say of a node together. -/
def joinEither : Option Tree → Option Tree → Option Tree
  | some target, some node => some (joined target node)
  | some target, none => some target
  | none, found => found

private theorem joinEither_none_right (found : Option Tree) : joinEither found none = found := by
  cases found <;> rfl

/-- A node that is no member of a leaf-list is joined to the one with its identity, or added behind
its siblings if there is none. -/
theorem joinInto_cases (siblings : Forest Unit) {node : Tree} (single : node.kind ≠ .leafList) :
    (siblings.single? node.label.identity = none ∧ node.joinInto siblings = siblings ++ [node]) ∨
      ∃ before target after, siblings = before ++ target :: after ∧ target.kind ≠ .leafList ∧
        target.label.identity = node.label.identity ∧
        single? before node.label.identity = none ∧
        node.joinInto siblings = before ++ joined target node :: after := by
  obtain ⟨slot, label, children⟩ := node
  have noMember : label.kind ≠ .leafList := single
  have absent : ∀ {others : Forest Unit},
      (∀ other ∈ others, (!other.label.sameNode label) = true) → others.single? label.identity = none := by
    intro others differ
    refine List.find?_eq_none.mpr fun other member => ?_
    obtain ⟨inside, noList⟩ := mem_singles_iff.mp member
    have differs := differ other inside
    rw [Bool.not_eq_true', ← Bool.not_eq_true, Label.sameNode_iff] at differs
    simpa using fun same => differs ⟨noList, same⟩
  have parts := siblings.takeWhile_append_dropWhile (p := fun other => !other.label.sameNode label)
  have before : ∀ other ∈ siblings.takeWhile (fun other => !other.label.sameNode label),
      (!other.label.sameNode label) = true :=
    fun other member => by simpa using List.mem_takeWhile_imp member
  rw [Node.joinInto, if_neg noMember]
  cases found : siblings.dropWhile fun other => !other.label.sameNode label with
  | nil =>
      rw [found, List.append_nil] at parts
      refine Or.inl ⟨absent (parts ▸ before), ?_⟩
      simp only [found]
      rfl
  | cons target after =>
      rw [found] at parts
      have agrees := List.head?_dropWhile_not (fun other => !other.label.sameNode label) siblings
      simp only [found, List.head?_cons, Bool.not_eq_false', Label.sameNode_iff] at agrees
      refine Or.inr ⟨_, target, after, parts.symm, agrees.1, agrees.2, absent before, ?_⟩
      by_cases leaf : label.kind = .leaf
      · have merged : joined target (.mk slot label children) = target.withValue label.value :=
          joined_of_leaf target leaf
        simp only [found, if_pos leaf, merged]
      · have merged : joined target (.mk slot label children) =
            target.withChildren (target.children.join children) := joined_of_inner target leaf
        simp only [found, if_neg leaf, merged]
        rfl

/-- Joining a node that is no member of a leaf-list changes the node with its identity alone. -/
theorem joinInto_spec_of_single (siblings : Forest Unit) {node : Tree}
    (single : node.kind ≠ .leafList) :
    (∀ identity, (node.joinInto siblings).single? identity =
      if node.label.identity = identity then joinEither (siblings.single? identity) (some node)
      else siblings.single? identity) ∧
    (∀ name, (node.joinInto siblings).membersOf name = siblings.membersOf name) ∧
    (node.joinInto siblings).identities =
      if node.label.identity ∈ siblings.identities then siblings.identities
      else siblings.identities ++ [node.label.identity] := by
  rcases joinInto_cases siblings single with ⟨absent, whole⟩ |
    ⟨before, target, after, rfl, targetSingle, same, first, whole⟩
  · rw [whole]
    refine ⟨fun identity => ?_, fun name => ?_, ?_⟩
    · rw [single?_append, single?_cons_of_single single]
      by_cases own : node.label.identity = identity
      · rw [if_pos own, if_pos own, ← own, absent]
        rfl
      · rw [if_neg own, if_neg own]
        exact Option.or_none
    · rw [membersOf_append, membersOf_cons_of_single single]
      exact List.append_nil _
    · rw [identities_append, identities_cons_of_single single,
        if_neg (single?_eq_none_iff.mp absent)]
      rfl
  · have joinedSingle : (joined target node).kind ≠ .leafList :=
      (kind_joined target node).symm ▸ targetSingle
    have joinedIdentity := identity_joined target node
    rw [whole]
    refine ⟨fun identity => ?_, fun name => ?_, ?_⟩
    · rw [single?_append, single?_append, single?_cons_of_single joinedSingle,
        single?_cons_of_single targetSingle, joinedIdentity, same]
      by_cases own : node.label.identity = identity
      · rw [if_pos own, if_pos own, if_pos own, ← own, first]
        rfl
      · rw [if_neg own, if_neg own, if_neg own]
    · rw [membersOf_append, membersOf_append, membersOf_cons_of_single joinedSingle,
        membersOf_cons_of_single targetSingle]
    · rw [identities_append, identities_append, identities_cons_of_single joinedSingle,
        identities_cons_of_single targetSingle, joinedIdentity, if_pos]
      rw [same]
      exact List.mem_append_right _ List.mem_cons_self

/-- Joining nodes of different identities one by one joins each to the one with its identity. -/
theorem joinEach_spec {source : Forest Unit} (distinct : source.identities.Nodup)
    (siblings : Forest Unit) :
    (∀ identity, (siblings.joinEach source).single? identity =
      joinEither (siblings.single? identity) (source.single? identity)) ∧
    (∀ name, (siblings.joinEach source).membersOf name = siblings.membersOf name) ∧
    (siblings.joinEach source).identities =
      siblings.identities ++ source.identities.filter fun identity =>
        identity ∉ siblings.identities := by
  induction source generalizing siblings with
  | nil =>
      rw [joinEach]
      exact ⟨fun identity => (joinEither_none_right _).symm, fun name => rfl,
        (List.append_nil _).symm⟩
  | cons node source ih =>
      rw [joinEach]
      by_cases listed : node.kind = .leafList
      · have unchanged : node.joinInto siblings = siblings := by
          obtain ⟨slot, label, children⟩ := node
          rw [Node.joinInto]
          exact if_pos listed
        rw [unchanged, identities_cons_of_member listed]
        rw [identities_cons_of_member listed] at distinct
        obtain ⟨found, members, order⟩ := ih distinct siblings
        refine ⟨fun identity => ?_, members, order⟩
        rw [single?_cons_of_member listed]
        exact found identity
      · rw [identities_cons_of_single listed, List.nodup_cons] at distinct
        obtain ⟨stepFound, stepMembers, stepOrder⟩ := joinInto_spec_of_single siblings listed
        obtain ⟨found, members, order⟩ := ih distinct.2 (node.joinInto siblings)
        refine ⟨fun identity => ?_, fun name => (members name).trans (stepMembers name), ?_⟩
        · rw [found, stepFound, single?_cons_of_single listed]
          by_cases own : node.label.identity = identity
          · have none : single? source identity = none := single?_eq_none_iff.mpr (own ▸ distinct.1)
            rw [if_pos own, if_pos own, none, joinEither_none_right]
          · rw [if_neg own, if_neg own]
        · rw [order, stepOrder, identities_cons_of_single listed, List.filter_cons]
          by_cases there : node.label.identity ∈ siblings.identities
          · rw [if_pos there, if_neg (by simpa using there)]
          · have later : ∀ identity ∈ identities source,
                decide (identity ∉ siblings.identities ++ [node.label.identity]) =
                  decide (identity ∉ siblings.identities) := by
              intro identity member
              have different : identity ≠ node.label.identity :=
                fun same => distinct.1 (same ▸ member)
              simp [different]
            rw [if_neg there, if_pos (by simpa using there), List.filter_congr later,
              List.append_assoc, List.singleton_append]

section Joined

variable {siblings source : Forest Unit}

/-- Of a node that both sides have, a join holds the joined one. -/
theorem single?_join (distinct : source.identities.Nodup) (identity : Label) :
    (siblings.join source).single? identity =
      joinEither (siblings.single? identity) (source.single? identity) := by
  rw [join, (joinEach_spec distinct _).1, single?, singles_joinLists]
  rfl

/-- A join keeps the order of what was there and puts behind it what is new, in its order. -/
theorem identities_join (distinct : source.identities.Nodup) :
    (siblings.join source).identities =
      siblings.identities ++ source.identities.filter fun identity =>
        identity ∉ siblings.identities := by
  have same : (siblings.joinLists source).identities = siblings.identities := by
    rw [identities, singles_joinLists]
    rfl
  rw [join, (joinEach_spec distinct _).2.2, same]

/-- Members that are brought replace those of the same leaf-list. -/
theorem membersOf_join (distinct : source.identities.Nodup) (name : String) :
    (siblings.join source).membersOf name =
      if source.membersOf name = [] then siblings.membersOf name else source.membersOf name := by
  rw [join, (joinEach_spec distinct _).2.1, membersOf_joinLists]

/-- Joined siblings are the merged ones. -/
theorem isMerged_join (distinct : source.identities.Nodup) :
    IsMerged siblings source (siblings.join source) where
  isSome_iff identity := by
    rw [single?_join distinct]
    cases siblings.single? identity <;> cases source.single? identity <;> simp [joinEither]
  value_eq name := by
    rw [single?_join distinct]
    cases found : source.single? (.plain name .leaf) with
    | none => rw [joinEither_none_right, Option.none_or]
    | some node =>
        have leaf : node.kind = .leaf :=
          congrArg (fun label => label.kind) (of_single?_eq_some found).2.2
        cases siblings.single? (.plain name .leaf) with
        | none => rfl
        | some target =>
            rw [joinEither, joined_of_leaf target leaf]
            rfl
  members_eq name := by
    rw [membersOf_join distinct, apply_ite (List.map Node.value)]
  order_eq := identities_join distinct

/-- Nodes that occur once on both sides occur once in the join. -/
theorem nodup_identities_join (distinct : siblings.identities.Nodup)
    (sourceDistinct : source.identities.Nodup) : (siblings.join source).identities.Nodup := by
  rw [identities_join sourceDistinct]
  refine List.nodup_append.mpr ⟨distinct, sourceDistinct.filter _, ?_⟩
  rintro identity inside _ new rfl
  exact of_decide_eq_true (List.mem_filter.mp new).2 inside

/-- Where joined siblings come from: a member of a leaf-list from either side, any other node from the
one or the two nodes with its identity. -/
theorem mem_join_cases (distinct : siblings.identities.Nodup)
    (sourceDistinct : source.identities.Nodup) {node : Tree} (member : node ∈ siblings.join source) :
    node ∈ siblings ∨ node ∈ source ∨ ∃ target ∈ siblings, ∃ other ∈ source,
      other.kind ≠ .leafList ∧ target.kind = other.kind ∧ node = joined target other := by
  by_cases listed : node.kind = .leafList
  · have inList : node ∈ (siblings.join source).membersOf node.name :=
      List.mem_filter.mpr ⟨member, Label.isMemberOf_iff.mpr ⟨listed, rfl⟩⟩
    rw [membersOf_join sourceDistinct] at inList
    split at inList
    · exact Or.inl (List.mem_filter.mp inList).1
    · exact Or.inr (Or.inl (List.mem_filter.mp inList).1)
  · have found := single?_of_mem (nodup_identities_join distinct sourceDistinct) member listed
    rw [single?_join sourceDistinct] at found
    cases left : siblings.single? node.label.identity with
    | none =>
        rw [left] at found
        exact Or.inr (Or.inl (of_single?_eq_some found).1)
    | some target =>
        obtain ⟨inside, _, identity⟩ := of_single?_eq_some left
        cases right : source.single? node.label.identity with
        | none =>
            rw [left, right] at found
            cases found
            exact Or.inl inside
        | some other =>
            rw [left, right] at found
            cases found
            obtain ⟨sourceInside, single, same⟩ := of_single?_eq_some right
            have kinds : target.kind = other.kind :=
              congrArg (fun label => label.kind) (identity.trans same.symm)
            exact Or.inr (Or.inr ⟨target, inside, other, sourceInside, single, kinds, rfl⟩)

end Joined

end Forest

/-- Joining clear siblings keeps them clear, if joining the nodes of the source does. -/
theorem Forest.isClear_join_of {siblings source : Forest Unit} (clear : siblings.IsClear)
    (sourceClear : source.IsClear)
    (each : ∀ node ∈ source, node.kind ≠ .leafList → node.IsClear →
      ∀ target : Tree, target.kind = node.kind → target.IsClear → (joined target node).IsClear) :
    (siblings.join source).IsClear := by
  obtain ⟨distinct, nodes⟩ := isClear_iff.mp clear
  obtain ⟨sourceDistinct, sourceNodes⟩ := isClear_iff.mp sourceClear
  refine isClear_iff.mpr ⟨nodup_identities_join distinct sourceDistinct, fun node member => ?_⟩
  rcases mem_join_cases distinct sourceDistinct member with old | new |
    ⟨target, inside, other, sourceInside, single, kinds, rfl⟩
  · exact nodes node old
  · exact sourceNodes node new
  · exact each other sourceInside single (sourceNodes other sourceInside) target kinds
      (nodes target inside)

/-- Joining a clear node to another of its kind keeps it clear. -/
theorem Node.isClear_joined {node : Tree} (single : node.kind ≠ .leafList) (clear : node.IsClear)
    (target : Tree) (kinds : target.kind = node.kind) (targetClear : target.IsClear) :
    (Forest.joined target node).IsClear := by
  induction node using Node.inductionOn generalizing target with
  | combine slot label children ih =>
      have childrenClear := (isClear_iff.mp clear).2
      obtain ⟨alone, targetChildren⟩ := isClear_iff.mp targetClear
      by_cases leaf : (mk slot label children).kind = .leaf
      · rw [Forest.joined_of_leaf target leaf]
        exact isClear_iff.mpr ⟨alone, targetChildren⟩
      · rw [Forest.joined_of_inner target leaf]
        refine isClear_iff.mpr ⟨fun leafy => ?_, ?_⟩
        · change target.kind = .leaf ∨ target.kind = .leafList at leafy
          rw [kinds] at leafy
          exact (leafy.elim leaf single).elim
        · exact Forest.isClear_join_of targetChildren childrenClear fun child member childSingle =>
            ih child member childSingle

namespace Forest

/-- Joining clear forests gives a clear one. -/
theorem IsClear.join {siblings source : Forest Unit} (clear : siblings.IsClear)
    (sourceClear : source.IsClear) : (siblings.join source).IsClear :=
  isClear_join_of clear sourceClear fun _ _ => Node.isClear_joined

private theorem childrenAt_nil (path : List Label) : childrenAt path [] = [] := by
  cases path <;> rfl

private theorem childrenAt_cons_of_some {siblings : Forest Unit} {identity : Label} {node : Tree}
    (found : siblings.single? identity = some node) (path : List Label) :
    siblings.childrenAt (identity :: path) = node.children.childrenAt path := by
  rw [childrenAt, found]

private theorem childrenAt_cons_of_none {siblings : Forest Unit} {identity : Label}
    (absent : siblings.single? identity = none) (path : List Label) :
    siblings.childrenAt (identity :: path) = [] := by
  rw [childrenAt, absent]

/-- Below every path, the siblings of a join are the merged ones of both sides. -/
theorem isMerged_childrenAt_join {siblings source : Forest Unit} (clear : siblings.IsClear)
    (sourceClear : source.IsClear) (path : List Label) :
    IsMerged (siblings.childrenAt path) (source.childrenAt path)
      ((siblings.join source).childrenAt path) := by
  induction path generalizing siblings source with
  | nil => exact isMerged_join (isClear_iff.mp sourceClear).1
  | cons identity path ih =>
      have found : (siblings.join source).single? identity =
          joinEither (siblings.single? identity) (source.single? identity) :=
        single?_join (isClear_iff.mp sourceClear).1 identity
      cases left : siblings.single? identity with
      | none =>
          rw [left] at found
          rw [childrenAt_cons_of_none left]
          have same : (siblings.join source).childrenAt (identity :: path) =
              source.childrenAt (identity :: path) := by
            rw [childrenAt, childrenAt, found]
            rfl
          rw [same]
          exact IsMerged.of_destination_nil _
      | some target =>
          have targetClear := clear.children (of_single?_eq_some left).1
          cases right : source.single? identity with
          | none =>
              rw [left, right] at found
              rw [childrenAt_cons_of_none right, childrenAt_cons_of_some left,
                childrenAt_cons_of_some found]
              exact IsMerged.of_source_nil _
          | some node =>
              obtain ⟨inside, _, same⟩ := of_single?_eq_some right
              rw [left, right] at found
              rw [childrenAt_cons_of_some left, childrenAt_cons_of_some right,
                childrenAt_cons_of_some found]
              by_cases leaf : node.kind = .leaf
              · have alone := (Node.isClear_iff.mp ((isClear_iff.mp sourceClear).2 node inside)).1
                rw [joined_of_leaf target leaf, alone (Or.inl leaf), childrenAt_nil]
                exact IsMerged.of_source_nil _
              · rw [joined_of_inner target leaf]
                exact ih targetClear (sourceClear.children inside)

end Forest

/-- **Merging.** A clear document with another clear one merged into it is clear, and below every path
of identities its nodes are those of the two merged. -/
theorem Document.isMerged_merge (document source : Document) (clear : document.trees.IsClear)
    (sourceClear : source.trees.IsClear) :
    (document.merge source.roots).trees.IsClear ∧ ∀ path : List Label,
      Forest.IsMerged (document.trees.childrenAt path) (source.trees.childrenAt path)
        ((document.merge source.roots).trees.childrenAt path) := by
  rw [trees_merge]
  exact ⟨clear.join sourceClear, Forest.isMerged_childrenAt_join clear sourceClear⟩

/-- The document of one port with a speed and some lanes. -/
def Document.ofPort (name speed : String) (lanes : List String) : Document :=
  ofForest [Node.tree (.plain "ports" .module) [.tree (.plain "PORT" .container)
    [.tree (.listInstance "PORT_LIST" name) (.tree (.leaf "speed" speed) [] ::
      lanes.map fun lane => .tree (.member "lanes" lane) [])]]]

/-- A port takes another speed and other lanes. -/
theorem Document.isMerged_merge_port :
    let ports : Document := .ofPort "x" "10" ["1", "2"]
    let change : Document := .ofPort "x" "25" ["3", "4", "5"]
    let path : List Label := [.plain "ports" .module, .plain "PORT" .container,
      .listInstance "PORT_LIST" "x"]
    ports.trees.IsClear ∧ change.trees.IsClear ∧
      (ports.merge change.roots).trees.IsClear ∧
      Forest.IsMerged (ports.trees.childrenAt path) (change.trees.childrenAt path)
        ((ports.merge change.roots).trees.childrenAt path) ∧
      (ports.merge change.roots).trees = change.trees := by
  have clear : (Document.ofPort "x" "10" ["1", "2"]).trees.IsClear ∧
      (Document.ofPort "x" "25" ["3", "4", "5"]).trees.IsClear := by
    simp [Document.ofPort, Forest.IsClear, Node.IsClear, Node.tree, Label.sameNode, Node.label,
      Label.plain, Label.listInstance, Label.leaf, Label.member]
  obtain ⟨merged, below⟩ := isMerged_merge _ _ clear.1 clear.2
  exact ⟨clear.1, clear.2, merged, below _, by decide +kernel⟩

end ConfigVetting
