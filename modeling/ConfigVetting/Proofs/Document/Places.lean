import ConfigVetting.Proofs.Document.Joining
import Mathlib.Data.List.TakeWhile

/-! # Places in trees

Modules, containers and list instances are told apart by their labels, so the labels from the top down
to a node are its place. Where no two siblings have the same label, a join holds at a place what either
side holds there (`ConfigVetting.Forest.reach?_join`), and taking out a place leaves the others
(`ConfigVetting.Forest.reach?_prune`).
-/

namespace ConfigVetting

namespace Label

/-- Whether a label stands for a node that is no leaf and has no more to it than a name and, in a
list, a key. -/
structure IsSolid (label : Label) : Prop where
  noLeaf : label.kind ≠ .leaf
  noMember : label.kind ≠ .leafList
  valueless : label.value = none
  keyless : label.kind ≠ .list → label.key = none

/-- Solid labels stand for the same node if they are equal. -/
theorem IsSolid.sameNode_iff {first second : Label} (solid : first.IsSolid)
    (otherSolid : second.IsSolid) : first.sameNode second ↔ first = second := by
  obtain ⟨name, kind, key, value⟩ := first
  obtain ⟨otherName, otherKind, otherKey, otherValue⟩ := second
  obtain ⟨noLeaf, noMember, valueless, keyless⟩ := solid
  obtain ⟨otherNoLeaf, otherNoMember, otherValueless, otherKeyless⟩ := otherSolid
  cases valueless
  cases otherValueless
  cases kind <;> cases otherKind <;> simp_all [sameNode]

theorem isSolid_module (name : String) : (plain name .module).IsSolid :=
  ⟨nofun, nofun, rfl, fun _ => rfl⟩

theorem isSolid_container (name : String) : (plain name .container).IsSolid :=
  ⟨nofun, nofun, rfl, fun _ => rfl⟩

theorem isSolid_listInstance (name key : String) : (listInstance name key).IsSolid :=
  ⟨nofun, nofun, rfl, fun list => absurd rfl list⟩

end Label

namespace Forest

/-- The first node with a label. -/
def labelled? (forest : Forest Unit) (label : Label) : Option Tree :=
  forest.find? fun node => node.label = label

/-- Whether the labels of a forest are solid and no two are the same. -/
structure IsOrderly (forest : Forest Unit) : Prop where
  solid : ∀ node ∈ forest, node.label.IsSolid
  distinct : (forest.map Node.label).Nodup

private theorem IsOrderly.nil : IsOrderly [] :=
  ⟨fun _ member => absurd member List.not_mem_nil, List.nodup_nil⟩

private theorem IsOrderly.of_cons {node : Tree} {forest : Forest Unit}
    (orderly : IsOrderly (node :: forest)) :
    node.label.IsSolid ∧ node.label ∉ forest.map Node.label ∧ IsOrderly forest := by
  have distinct := orderly.distinct
  rw [List.map_cons, List.nodup_cons] at distinct
  exact ⟨orderly.solid node List.mem_cons_self, distinct.1,
    fun later member => orderly.solid later (List.mem_cons_of_mem _ member), distinct.2⟩

/-- A label is looked up in vain if no node bears it. -/
theorem labelled?_eq_none_iff {forest : Forest Unit} {label : Label} :
    forest.labelled? label = none ↔ label ∉ forest.map Node.label := by
  simp [labelled?]

/-- A node that is looked up is there and bears the label. -/
theorem label_of_labelled? {forest : Forest Unit} {label : Label} {node : Tree}
    (found : forest.labelled? label = some node) : node ∈ forest ∧ node.label = label :=
  ⟨List.mem_of_find?_eq_some found, by simpa using List.find?_some found⟩

/-- A node of an orderly forest is the one with its label. -/
theorem IsOrderly.labelled?_of_mem {forest : Forest Unit} (orderly : forest.IsOrderly) {node : Tree}
    (member : node ∈ forest) : forest.labelled? node.label = some node := by
  induction forest with
  | nil => cases member
  | cons head forest ih =>
      obtain ⟨_, apart, rest⟩ := orderly.of_cons
      rcases List.mem_cons.mp member with rfl | later
      · simp [labelled?]
      · have different : head.label ≠ node.label := fun same =>
          apart (same ▸ List.mem_map_of_mem later)
        rw [labelled?, List.find?_cons_of_neg (by simpa using different)]
        exact ih rest later

/-- Of an orderly forest, the nodes that have a label are the one found with it. -/
theorem IsOrderly.filter_eq {forest : Forest Unit} (orderly : forest.IsOrderly) {label : Label}
    {choose : Tree → Bool} (same : ∀ node ∈ forest, choose node = true ↔ node.label = label) :
    forest.filter choose = (forest.labelled? label).toList := by
  induction forest with
  | nil => rfl
  | cons head forest ih =>
      obtain ⟨_, apart, rest⟩ := orderly.of_cons
      rw [List.forall_mem_cons] at same
      by_cases own : head.label = label
      · have none : forest.filter choose = [] := by
          refine List.filter_eq_nil_iff.mpr fun node member chosen => apart ?_
          rw [own, ← (same.2 node member).mp chosen]
          exact List.mem_map_of_mem member
        rw [List.filter_cons_of_pos (same.1.mpr own), none, labelled?,
          List.find?_cons_of_pos (by simpa using own)]
        rfl
      · rw [List.filter_cons_of_neg fun chosen => own (same.1.mp chosen), ih rest same.2, labelled?,
          labelled?, List.find?_cons_of_neg (by simpa using own)]

/-- What is gathered from an orderly forest comes from the node found with a label, if all others have
nothing. -/
theorem IsOrderly.flatMap_eq {forest : Forest Unit} (orderly : forest.IsOrderly) {label : Label}
    {gather : Tree → Forest Unit} (others : ∀ node ∈ forest, node.label ≠ label → gather node = []) :
    forest.flatMap gather = (forest.labelled? label).toList.flatMap gather := by
  induction forest with
  | nil => rfl
  | cons head forest ih =>
      obtain ⟨_, apart, rest⟩ := orderly.of_cons
      rw [List.forall_mem_cons] at others
      by_cases own : head.label = label
      · have none : forest.flatMap gather = [] := by
          refine List.flatMap_eq_nil_iff.mpr fun node member => others.2 node member ?_
          exact fun same => apart (own ▸ same ▸ List.mem_map_of_mem member)
        rw [List.flatMap_cons, none, labelled?, List.find?_cons_of_pos (by simpa using own)]
        simp
      · rw [List.flatMap_cons, others.1 own, ih rest others.2, labelled?, labelled?,
          List.find?_cons_of_neg (by simpa using own)]
        rfl

/-- A found node with its place among its siblings. -/
theorem exists_split_of_labelled? {forest : Forest Unit} {label : Label} {node : Tree}
    (found : forest.labelled? label = some node) :
    node.label = label ∧ ∃ before after, forest = before ++ node :: after ∧
      ∀ other ∈ before, other.label ≠ label := by
  obtain ⟨own, before, after, split, first⟩ := List.find?_eq_some_iff_append.mp found
  exact ⟨by simpa using own, before, after, split, by simpa using first⟩

/-- What two forests say of a node together: a node that both have is joined. -/
def joinFound : Option Tree → Option Tree → Option Tree
  | some target, some node => some (target.withChildren (target.children.join node.children))
  | some target, none => some target
  | none, found => found

/-- Something is found after a join if either side has it. -/
theorem isSome_joinFound {first second : Option Tree} :
    (joinFound first second).isSome = (first.isSome || second.isSome) := by
  cases first <;> cases second <;> rfl

end Forest

open Forest

theorem Node.children_withChildren {σ : Type} (node : Node σ) (children : Forest σ) :
    (node.withChildren children).children = children := rfl

theorem Node.label_withChildren {σ : Type} (node : Node σ) (children : Forest σ) :
    (node.withChildren children).label = node.label := rfl

/-- A node that is not among its siblings is joined behind them. -/
theorem Node.joinInto_of_absent {siblings : Forest Unit} (orderly : siblings.IsOrderly) {node : Tree}
    (solid : node.label.IsSolid) (absent : siblings.labelled? node.label = none) :
    node.joinInto siblings = siblings ++ [node] := by
  obtain ⟨slot, label, children⟩ := node
  change label.IsSolid at solid
  have differs : ∀ other ∈ siblings, (!other.label.sameNode label) = true := by
    intro other member
    rw [Bool.not_eq_true', ← Bool.not_eq_true, (orderly.solid other member).sameNode_iff solid]
    exact fun same => labelled?_eq_none_iff.mp absent (List.mem_map.mpr ⟨other, member, same⟩)
  have none : siblings.dropWhile (fun other => !other.label.sameNode label) = [] :=
    List.dropWhile_eq_nil_iff.mpr differs
  rw [joinInto]
  simp only [none, if_neg solid.noMember]
  rfl

/-- A node that is among its siblings is joined to the one with its label. -/
theorem Node.joinInto_of_present {before after : Forest Unit} {target : Tree}
    (orderly : IsOrderly (before ++ target :: after)) {node : Tree} (solid : node.label.IsSolid)
    (same : target.label = node.label) (first : ∀ other ∈ before, other.label ≠ node.label) :
    node.joinInto (before ++ target :: after) =
      before ++ target.withChildren (target.children.join node.children) :: after := by
  obtain ⟨slot, label, children⟩ := node
  change label.IsSolid at solid
  change target.label = label at same
  have differs : ∀ other ∈ before, (!other.label.sameNode label) = true := by
    intro other member
    rw [Bool.not_eq_true', ← Bool.not_eq_true,
      (orderly.solid other (List.mem_append_left _ member)).sameNode_iff solid]
    exact first other member
  have agrees : (!target.label.sameNode label) = false := by
    have targetSolid := orderly.solid target (List.mem_append_right _ List.mem_cons_self)
    rw [(targetSolid.sameNode_iff solid).mpr same]
    rfl
  have dropped : (before ++ target :: after).dropWhile (fun other => !other.label.sameNode label) =
      target :: after := by
    rw [List.dropWhile_append_of_pos differs, List.dropWhile_cons_of_neg (by simp [agrees])]
  have taken : (before ++ target :: after).takeWhile (fun other => !other.label.sameNode label) =
      before := by
    rw [List.takeWhile_append_of_pos differs, List.takeWhile_cons_of_neg (by simp [agrees]),
      List.append_nil]
  rw [joinInto]
  simp only [dropped, taken, if_neg solid.noMember, if_neg solid.noLeaf]
  rfl

namespace Forest

private theorem labelled?_append (first second : Forest Unit) (label : Label) :
    labelled? (first ++ second) label = (first.labelled? label).or (second.labelled? label) :=
  List.find?_append

theorem labelled?_cons (node : Tree) (forest : Forest Unit) (label : Label) :
    labelled? (node :: forest) label =
      if node.label = label then some node else forest.labelled? label := by
  unfold labelled?
  by_cases own : node.label = label <;> simp [own]

/-- Joining a node to orderly siblings changes the node with its label alone, and keeps them
orderly. -/
theorem joinInto_spec {siblings : Forest Unit} (orderly : siblings.IsOrderly) {node : Tree}
    (solid : node.label.IsSolid) :
    (node.joinInto siblings).IsOrderly ∧ ∀ label, (node.joinInto siblings).labelled? label =
      if node.label = label then joinFound (siblings.labelled? label) (some node)
      else siblings.labelled? label := by
  cases found : siblings.labelled? node.label with
  | none =>
      rw [Node.joinInto_of_absent orderly solid found]
      refine ⟨⟨?_, ?_⟩, fun label => ?_⟩
      · intro other member
        rcases List.mem_append.mp member with old | new
        · exact orderly.solid other old
        · rwa [List.mem_singleton.mp new]
      · rw [List.map_append, List.map_singleton]
        refine List.nodup_append.mpr ⟨orderly.distinct, by simp, ?_⟩
        rintro label inside _ own rfl
        rw [List.mem_singleton.mp own] at inside
        exact labelled?_eq_none_iff.mp found inside
      · rw [labelled?_append, labelled?_cons]
        by_cases own : node.label = label
        · rw [if_pos own, if_pos own, ← own, found]
          rfl
        · rw [if_neg own, if_neg own]
          exact Option.or_none
  | some target =>
      obtain ⟨same, before, after, rfl, first⟩ := exists_split_of_labelled? found
      rw [Node.joinInto_of_present orderly solid same first]
      refine ⟨⟨?_, ?_⟩, fun label => ?_⟩
      · intro other member
        rcases List.mem_append.mp member with old | new
        · exact orderly.solid other (List.mem_append_left _ old)
        · rcases List.mem_cons.mp new with rfl | old
          · rwa [Node.label_withChildren, same]
          · exact orderly.solid other (List.mem_append_right _ (List.mem_cons_of_mem _ old))
      · have distinct := orderly.distinct
        rw [List.map_append, List.map_cons] at distinct ⊢
        exact distinct
      · rw [labelled?_append, labelled?_append, labelled?_cons, labelled?_cons,
          Node.label_withChildren, same]
        by_cases own : node.label = label
        · have none : labelled? before label = none := by
            rw [labelled?_eq_none_iff, ← own]
            intro inside
            obtain ⟨other, member, equal⟩ := List.mem_map.mp inside
            exact first other member equal
          simp only [own, none, ↓reduceIte, Option.none_or]
          rfl
        · simp only [own, ↓reduceIte]

/-- Solid nodes have no leaf-lists among them. -/
theorem joinLists_of_solid {source : Forest Unit} (solid : ∀ node ∈ source, node.label.IsSolid)
    (siblings : Forest Unit) : siblings.joinLists source = siblings := by
  have none : source.filter (fun node => node.kind = .leafList) = [] := by
    rw [List.filter_eq_nil_iff]
    intro node member
    have noMember : node.kind ≠ .leafList := (solid node member).noMember
    simpa using noMember
  unfold joinLists leafLists
  simp only [none]
  rfl

/-- Joining orderly forests joins the nodes with the same label. -/
theorem join_spec {siblings source : Forest Unit} (orderly : siblings.IsOrderly)
    (sourceOrderly : source.IsOrderly) :
    (siblings.join source).IsOrderly ∧ ∀ label, (siblings.join source).labelled? label =
      joinFound (siblings.labelled? label) (source.labelled? label) := by
  rw [join, joinLists_of_solid sourceOrderly.solid]
  induction source generalizing siblings with
  | nil =>
      rw [joinEach]
      refine ⟨orderly, fun label => ?_⟩
      cases siblings.labelled? label <;> rfl
  | cons node rest ih =>
      obtain ⟨solid, apart, restOrderly⟩ := sourceOrderly.of_cons
      obtain ⟨stepOrderly, step⟩ := joinInto_spec orderly solid
      obtain ⟨joinedOrderly, joined⟩ := ih stepOrderly restOrderly
      rw [joinEach]
      refine ⟨joinedOrderly, fun label => ?_⟩
      rw [joined, step, labelled?_cons]
      by_cases own : node.label = label
      · have none : labelled? rest label = none := labelled?_eq_none_iff.mpr (own ▸ apart)
        rw [if_pos own, if_pos own, none]
        cases siblings.labelled? label <;> rfl
      · rw [if_neg own, if_neg own]

/-- The node at a place, told by the labels from the top down to it. -/
def reach? : List Label → Forest Unit → Option Tree
  | [], _ => none
  | [label], forest => forest.labelled? label
  | label :: rest, forest => (forest.labelled? label).bind fun node => reach? rest node.children

/-- A path is followed label by label. -/
theorem reach?_cons {path : List Label} (more : path ≠ []) (label : Label) (forest : Forest Unit) :
    forest.reach? (label :: path) =
      (forest.labelled? label).bind fun node => node.children.reach? path := by
  cases path with
  | nil => exact absurd rfl more
  | cons next path => rfl

/-- Whether a forest is orderly down to a depth. -/
def IsOrderlyTo : Nat → Forest Unit → Prop
  | 0, _ => True
  | depth + 1, forest => forest.IsOrderly ∧ ∀ node ∈ forest, IsOrderlyTo depth node.children

theorem isOrderlyTo_nil (depth : Nat) : IsOrderlyTo depth [] := by
  cases depth with
  | zero => trivial
  | succ depth => exact ⟨IsOrderly.nil, fun _ member => absurd member List.not_mem_nil⟩

/-- Order down to some depth is order down to any lesser one. -/
theorem IsOrderlyTo.mono {depth more : Nat} {forest : Forest Unit} (orderly : forest.IsOrderlyTo more)
    (less : depth ≤ more) : forest.IsOrderlyTo depth := by
  induction more generalizing depth forest with
  | zero => rwa [Nat.le_zero.mp less]
  | succ more ih =>
      cases depth with
      | zero => trivial
      | succ depth =>
          exact ⟨orderly.1, fun node member => ih (orderly.2 node member) (Nat.le_of_succ_le_succ less)⟩

/-- Joining keeps the order down to a depth. -/
theorem IsOrderlyTo.join {depth : Nat} {first second : Forest Unit}
    (orderly : first.IsOrderlyTo depth) (otherOrderly : second.IsOrderlyTo depth) :
    (first.join second).IsOrderlyTo depth := by
  induction depth generalizing first second with
  | zero => trivial
  | succ depth ih =>
      obtain ⟨joinedOrderly, joined⟩ := join_spec orderly.1 otherOrderly.1
      refine ⟨joinedOrderly, fun node member => ?_⟩
      have found := joined node.label
      rw [joinedOrderly.labelled?_of_mem member] at found
      cases left : first.labelled? node.label with
      | none =>
          rw [left] at found
          exact otherOrderly.2 node (label_of_labelled? found.symm).1
      | some target =>
          have targetOrderly := orderly.2 target (label_of_labelled? left).1
          cases right : second.labelled? node.label with
          | none =>
              rw [left, right] at found
              cases found
              exact targetOrderly
          | some source =>
              rw [left, right] at found
              cases found
              exact ih targetOrderly (otherOrderly.2 source (label_of_labelled? right).1)

/-- A join holds at a place what either side holds there, joined if both do. -/
theorem reach?_join {depth : Nat} {first second : Forest Unit} (orderly : first.IsOrderlyTo depth)
    (otherOrderly : second.IsOrderlyTo depth) {path : List Label} (short : path.length ≤ depth) :
    (first.join second).reach? path = joinFound (first.reach? path) (second.reach? path) := by
  induction path generalizing first second depth with
  | nil => rfl
  | cons label path ih =>
      obtain ⟨depth, rfl⟩ := Nat.exists_eq_succ_of_ne_zero (Nat.ne_zero_of_lt short)
      have joined := (join_spec orderly.1 otherOrderly.1).2 label
      cases path with
      | nil => exact joined
      | cons next path =>
          rw [reach?_cons (by simp), reach?_cons (by simp), reach?_cons (by simp), joined]
          cases left : first.labelled? label with
          | none => cases second.labelled? label <;> rfl
          | some target =>
              cases right : second.labelled? label with
              | none =>
                  change reach? (next :: path) target.children =
                    joinFound (reach? (next :: path) target.children) none
                  cases reach? (next :: path) target.children <;> rfl
              | some source =>
                  exact ih (orderly.2 target (label_of_labelled? left).1)
                    (otherOrderly.2 source (label_of_labelled? right).1)
                    (Nat.le_of_succ_le_succ short)

theorem modifyFirst_cons {σ : Type} (choose : Node σ → Bool) (change : Node σ → Node σ)
    (node : Node σ) (forest : Forest σ) :
    modifyFirst choose change (node :: forest) =
      if choose node then change node :: forest else node :: modifyFirst choose change forest := by
  unfold modifyFirst
  rw [List.findIdx_cons]
  cases choose node <;> simp

/-- The first node of a class stands behind others that are not of it. -/
theorem modifyFirst_of_split {σ : Type} {choose : Node σ → Bool} {before after : Forest σ}
    {node : Node σ} (first : ∀ other ∈ before, choose other = false) (chosen : choose node = true)
    (change : Node σ → Node σ) :
    modifyFirst choose change (before ++ node :: after) = before ++ change node :: after := by
  induction before with
  | nil => rw [List.nil_append, modifyFirst_cons, if_pos chosen, List.nil_append]
  | cons head before ih =>
      rw [List.forall_mem_cons] at first
      rw [List.cons_append, modifyFirst_cons, first.1, ih first.2]
      rfl

/-- A change of the first chosen node depends on the choice and the change among the siblings alone. -/
theorem modifyFirst_congr {σ : Type} {choose other : Node σ → Bool}
    {change otherChange : Node σ → Node σ} {forest : Forest σ}
    (sameChoice : ∀ node ∈ forest, choose node = other node)
    (sameChange : ∀ node ∈ forest, choose node → change node = otherChange node) :
    forest.modifyFirst choose change = forest.modifyFirst other otherChange := by
  induction forest with
  | nil => rfl
  | cons node forest ih =>
      rw [List.forall_mem_cons] at sameChoice sameChange
      rw [modifyFirst_cons, modifyFirst_cons, ← sameChoice.1, ih sameChoice.2 sameChange.2]
      by_cases chosen : choose node = true
      · rw [if_pos chosen, if_pos chosen, sameChange.1 chosen]
      · rw [if_neg chosen, if_neg chosen]

theorem eraseP_congr {σ : Type} {choose other : Node σ → Bool} {forest : Forest σ}
    (same : ∀ node ∈ forest, choose node = other node) :
    forest.eraseP choose = forest.eraseP other := by
  induction forest with
  | nil => rfl
  | cons node forest ih =>
      rw [List.forall_mem_cons] at same
      rw [List.eraseP_cons, List.eraseP_cons, same.1, ih same.2]

/-- The forest without the node at a place. -/
def prune : List Label → Forest Unit → Forest Unit
  | [], forest => forest
  | [label], forest => forest.eraseP fun node => node.label = label
  | label :: rest, forest =>
    forest.modifyFirst (fun node => node.label = label) fun node =>
      node.withChildren (prune rest node.children)

private theorem prune_cons {path : List Label} (more : path ≠ []) (label : Label) (forest : Forest Unit) :
    forest.prune (label :: path) =
      forest.modifyFirst (fun node => node.label = label) fun node =>
        node.withChildren (node.children.prune path) := by
  cases path with
  | nil => exact absurd rfl more
  | cons next path => rfl

/-- Changing the children of the node with a label changes no other node. -/
theorem modifyChildren_spec {forest : Forest Unit} (orderly : forest.IsOrderly) (label : Label)
    (change : Forest Unit → Forest Unit) :
    let changed := forest.modifyFirst (fun node => node.label = label) fun node =>
      node.withChildren (change node.children)
    changed.map Node.label = forest.map Node.label ∧ ∀ other, changed.labelled? other =
      if label = other then (forest.labelled? other).map fun node =>
        node.withChildren (change node.children)
      else forest.labelled? other := by
  induction forest with
  | nil =>
      refine ⟨rfl, fun other => ?_⟩
      by_cases own : label = other <;> simp [modifyFirst, labelled?]
  | cons node forest ih =>
      obtain ⟨_, apart, rest⟩ := orderly.of_cons
      obtain ⟨labels, found⟩ := ih rest
      rw [modifyFirst_cons]
      by_cases own : node.label = label
      · simp only [own, decide_true, ↓reduceIte]
        refine ⟨by rw [List.map_cons, List.map_cons, Node.label_withChildren], fun other => ?_⟩
        rw [labelled?_cons, labelled?_cons, Node.label_withChildren, own]
        by_cases same : label = other <;> simp [same]
      · simp only [own, decide_false, Bool.false_eq_true, ↓reduceIte]
        refine ⟨by rw [List.map_cons, List.map_cons, labels], fun other => ?_⟩
        rw [labelled?_cons, labelled?_cons, found]
        by_cases same : label = other
        · subst same
          simp [own]
        · simp [same]

/-- Changing the children of the node with a label keeps a forest orderly, if it keeps them orderly. -/
theorem IsOrderlyTo.modifyChildren {depth : Nat} {forest : Forest Unit}
    (orderly : forest.IsOrderlyTo (depth + 1)) (label : Label) {change : Forest Unit → Forest Unit}
    (keeps : ∀ children : Forest Unit, children.IsOrderlyTo depth → (change children).IsOrderlyTo depth) :
    IsOrderlyTo (depth + 1) (forest.modifyFirst (fun node => node.label = label) fun node =>
      node.withChildren (change node.children)) := by
  obtain ⟨labels, found⟩ := modifyChildren_spec orderly.1 label change
  have changedOrderly : (forest.modifyFirst (fun node => node.label = label) fun node =>
      node.withChildren (change node.children)).IsOrderly := by
    refine ⟨fun node member => ?_, labels.symm ▸ orderly.1.distinct⟩
    have listed := List.mem_map_of_mem (f := Node.label) member
    rw [labels] at listed
    obtain ⟨other, inside, same⟩ := List.mem_map.mp listed
    exact same ▸ orderly.1.solid other inside
  refine ⟨changedOrderly, fun node member => ?_⟩
  have own := found node.label
  rw [changedOrderly.labelled?_of_mem member] at own
  by_cases same : label = node.label
  · rw [if_pos same] at own
    obtain ⟨before, held, rfl⟩ := Option.map_eq_some_iff.mp own.symm
    exact keeps _ (orderly.2 before (label_of_labelled? held).1)
  · rw [if_neg same] at own
    exact orderly.2 node (label_of_labelled? own.symm).1

/-- Changing the children of the node with a label changes the places below it alone. -/
theorem reach?_modifyChildren {forest : Forest Unit} (orderly : forest.IsOrderly) (label : Label)
    (change : Forest Unit → Forest Unit) {path : List Label} (more : path ≠ []) (other : Label) :
    reach? (other :: path) (forest.modifyFirst (fun node => node.label = label) fun node =>
      node.withChildren (change node.children)) =
      if label = other then (forest.labelled? other).bind fun node => reach? path (change node.children)
      else forest.reach? (other :: path) := by
  rw [reach?_cons more, (modifyChildren_spec orderly label change).2, reach?_cons more]
  by_cases own : label = other
  · rw [if_pos own, if_pos own]
    cases forest.labelled? other <;> rfl
  · rw [if_neg own, if_neg own]

/-- The forest with the children of the node at a place changed. -/
def changeAt (change : Forest Unit → Forest Unit) : List Label → Forest Unit → Forest Unit
  | [], forest => change forest
  | label :: rest, forest =>
    forest.modifyFirst (fun node => node.label = label) fun node =>
      node.withChildren (changeAt change rest node.children)

/-- A change at the end of a path keeps the order above it. -/
theorem IsOrderlyTo.changeAt {change : Forest Unit → Forest Unit} {forest : Forest Unit}
    {path : List Label} (orderly : forest.IsOrderlyTo path.length) :
    (forest.changeAt change path).IsOrderlyTo path.length := by
  induction path generalizing forest with
  | nil => trivial
  | cons label path ih => exact orderly.modifyChildren label fun _ => ih

/-- Changing the children of the node at a place changes no other place of its depth. -/
theorem reach?_changeAt {change : Forest Unit → Forest Unit} {forest : Forest Unit}
    {path other : List Label} (orderly : forest.IsOrderlyTo path.length)
    (same : other.length = path.length) :
    (forest.changeAt change path).reach? other =
      if path = other then (forest.reach? other).map fun node =>
        node.withChildren (change node.children)
      else forest.reach? other := by
  induction path generalizing forest other with
  | nil =>
      rw [List.eq_nil_of_length_eq_zero same]
      rfl
  | cons label path ih =>
      obtain ⟨otherLabel, others, rfl⟩ := List.exists_cons_of_length_eq_add_one same
      have sameRest : others.length = path.length := Nat.succ.inj same
      simp only [List.cons.injEq]
      cases path with
      | nil =>
          cases List.eq_nil_of_length_eq_zero sameRest
          simp only [and_true]
          exact (modifyChildren_spec orderly.1 label change).2 otherLabel
      | cons next path =>
          have more : others ≠ [] := by
            rintro rfl
            cases sameRest
          refine (reach?_modifyChildren orderly.1 label _ more otherLabel).trans ?_
          by_cases own : label = otherLabel
          · rw [if_pos own, reach?_cons more]
            cases held : forest.labelled? otherLabel with
            | none => simp
            | some node =>
                simp only [own, true_and]
                exact ih (orderly.2 node (label_of_labelled? held).1) sameRest
          · rw [if_neg own, if_neg fun both => own both.1]

/-- Taking out the node with a label leaves the other nodes. -/
theorem erase_spec {forest : Forest Unit} (orderly : forest.IsOrderly) (label : Label) :
    (prune [label] forest).IsOrderly ∧ (∀ node ∈ prune [label] forest, node ∈ forest) ∧
      ∀ other, (prune [label] forest).labelled? other =
        if label = other then none else forest.labelled? other := by
  unfold prune
  have inside : ∀ node ∈ forest.eraseP (fun node => node.label = label), node ∈ forest :=
    fun node member => List.mem_of_mem_eraseP member
  refine ⟨⟨fun node member => orderly.solid node (inside node member), ?_⟩, inside, ?_⟩
  · exact orderly.distinct.sublist (List.eraseP_sublist.map _)
  · intro other
    induction forest with
    | nil => by_cases own : label = other <;> simp [labelled?]
    | cons node forest ih =>
        obtain ⟨_, apart, rest⟩ := orderly.of_cons
        by_cases own : node.label = label
        · rw [List.eraseP_cons_of_pos (by simpa using own), labelled?_cons, own]
          by_cases same : label = other
          · rw [if_pos same, labelled?_eq_none_iff, ← same, ← own]
            exact apart
          · rw [if_neg same, if_neg same]
        · have kept := ih rest fun node member => List.mem_of_mem_eraseP member
          rw [List.eraseP_cons_of_neg (by simpa using own), labelled?_cons, labelled?_cons, kept]
          by_cases same : label = other
          · have different : node.label ≠ other := fun equal => own (equal.trans same.symm)
            rw [if_neg different, if_pos same, if_pos same]
          · rw [if_neg same, if_neg same]

/-- Taking out the node at a place keeps the order. -/
theorem IsOrderlyTo.prune {depth : Nat} {forest : Forest Unit} (orderly : forest.IsOrderlyTo depth)
    {path : List Label} (short : path.length ≤ depth) : (forest.prune path).IsOrderlyTo depth := by
  induction path generalizing forest depth with
  | nil => exact orderly
  | cons label path ih =>
      obtain ⟨depth, rfl⟩ := Nat.exists_eq_succ_of_ne_zero (Nat.ne_zero_of_lt short)
      cases path with
      | nil =>
          obtain ⟨erased, inside, _⟩ := erase_spec orderly.1 label
          exact ⟨erased, fun node member => orderly.2 node (inside node member)⟩
      | cons next path =>
          rw [prune_cons (by simp)]
          exact orderly.modifyChildren label fun _ below => ih below (Nat.le_of_succ_le_succ short)

/-- Taking out a place leaves the other places of its depth, and no others that were not there. -/
theorem reach?_prune {depth : Nat} {forest : Forest Unit} (orderly : forest.IsOrderlyTo depth)
    {path other : List Label} (short : path.length ≤ depth) (same : other.length = path.length) :
    (forest.prune path).reach? other = if path = other then none else forest.reach? other := by
  induction path generalizing forest depth other with
  | nil =>
      rw [List.eq_nil_of_length_eq_zero same]
      rfl
  | cons label path ih =>
      obtain ⟨depth, rfl⟩ := Nat.exists_eq_succ_of_ne_zero (Nat.ne_zero_of_lt short)
      obtain ⟨otherLabel, others, rfl⟩ := List.exists_cons_of_length_eq_add_one same
      have sameRest : others.length = path.length := Nat.succ.inj same
      cases path with
      | nil =>
          cases List.eq_nil_of_length_eq_zero sameRest
          have erased := (erase_spec orderly.1 label).2.2 otherLabel
          simpa [reach?] using erased
      | cons next path =>
          have more : others ≠ [] := by
            rintro rfl
            cases sameRest
          rw [prune_cons (by simp), reach?_modifyChildren orderly.1 label _ more]
          by_cases own : label = otherLabel
          · subst own
            rw [if_pos rfl, reach?_cons more]
            cases held : forest.labelled? label with
            | none => simp
            | some node =>
                have rest := ih (orderly.2 node (label_of_labelled? held).1)
                  (Nat.le_of_succ_le_succ short) sameRest
                simpa using rest
          · have different : label :: next :: path ≠ otherLabel :: others := fun equal =>
              own (List.cons.inj equal).1
            rw [if_neg own, if_neg different]

/-- A node of a forest without a place was there, with the same children or one place fewer among
them. -/
theorem exists_of_labelled?_prune {forest : Forest Unit} (orderly : forest.IsOrderly)
    {label other : Label} {path : List Label} {node : Tree}
    (found : (forest.prune (label :: path)).labelled? other = some node) :
    ∃ before, forest.labelled? other = some before ∧
      (node.children = before.children ∨ node.children = before.children.prune path) := by
  cases path with
  | nil =>
      rw [(erase_spec orderly label).2.2 other] at found
      by_cases own : label = other
      · rw [if_pos own] at found
        cases found
      · rw [if_neg own] at found
        exact ⟨node, found, Or.inl rfl⟩
  | cons next path =>
      rw [prune_cons (by simp), (modifyChildren_spec orderly label _).2 other] at found
      by_cases own : label = other
      · rw [if_pos own] at found
        obtain ⟨before, held, rfl⟩ := Option.map_eq_some_iff.mp found
        exact ⟨before, held, Or.inr rfl⟩
      · rw [if_neg own] at found
        exact ⟨node, found, Or.inl rfl⟩

/-- Taking out a place makes no place. -/
theorem isSome_reach?_of_prune {depth : Nat} {forest : Forest Unit}
    (orderly : forest.IsOrderlyTo depth) {path other : List Label} (short : path.length ≤ depth)
    (there : ((forest.prune path).reach? other).isSome) : (forest.reach? other).isSome := by
  induction path generalizing forest depth other with
  | nil => exact there
  | cons label path ih =>
      obtain ⟨depth, rfl⟩ := Nat.exists_eq_succ_of_ne_zero (Nat.ne_zero_of_lt short)
      obtain ⟨node, reached⟩ := Option.isSome_iff_exists.mp there
      cases other with
      | nil => cases reached
      | cons first others =>
          by_cases more : others = []
          · subst more
            obtain ⟨before, held, _⟩ := exists_of_labelled?_prune orderly.1 reached
            exact Option.isSome_iff_exists.mpr ⟨before, held⟩
          · rw [reach?_cons more] at reached ⊢
            obtain ⟨parent, found, below⟩ := Option.bind_eq_some_iff.mp reached
            obtain ⟨before, held, children⟩ := exists_of_labelled?_prune orderly.1 found
            rw [held, Option.bind_some]
            rcases children with same | pruned
            · rw [← same, below]
              rfl
            · refine ih (orderly.2 before (label_of_labelled? held).1)
                (Nat.le_of_succ_le_succ short) ?_
              rw [← pruned, below]
              rfl

end Forest

end ConfigVetting
