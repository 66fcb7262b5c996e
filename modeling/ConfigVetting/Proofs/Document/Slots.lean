import ConfigVetting.Proofs.Document.Places
import ConfigVetting.Proofs.Document.Siblings
import Mathlib.Algebra.BigOperators.Group.Multiset.Basic
import Mathlib.Algebra.Group.Action.Defs
import Mathlib.Data.Multiset.UnionInter
import Mathlib.Tactic.Abel

/-! # The slots of a forest

A computation on slots is given some of those that are held and leaves others in their place: fresh ones
come in, and some are given up. It keeps the account if all slots that were handed out are afterwards
either held, none of them twice, or among those given up, whatever else is held meanwhile
(`ConfigVetting.SlotM.Trades`). Merging a forest into siblings does
(`ConfigVetting.Forest.trades_mergeInto`), because what it gives up are members of leaf-lists, below which
there is nothing.
-/

namespace ConfigVetting

variable {σ α β : Type}

/-! ## The slots that nodes refer to -/

/-- The slots of a node and of all nodes below it. -/
def Node.slots : Node σ → Multiset σ :=
  fold fun slot _ below => slot ::ₘ below.sum

/-- The slots that a forest refers to, among its own nodes and in the children of each node, as often as it
refers to them. -/
def Forest.slots (forest : Forest σ) : Multiset σ :=
  (forest.map Node.slots).sum

namespace Forest

@[simp]
theorem slots_nil : slots ([] : Forest σ) = 0 := rfl

@[simp]
theorem slots_cons (node : Node σ) (forest : Forest σ) :
    slots (node :: forest) = node.slots + forest.slots := by
  rw [slots, List.map_cons, List.sum_cons, slots]

@[simp]
theorem slots_append (first second : Forest σ) :
    slots (first ++ second) = first.slots + second.slots := by
  rw [slots, List.map_append, List.sum_append, slots, slots]

/-- The nodes of a class and the others have all slots between them. -/
theorem slots_filter (choose : Node σ → Bool) (forest : Forest σ) :
    slots (forest.filter fun node => !choose node) + slots (forest.filter choose) = forest.slots := by
  induction forest with
  | nil => rfl
  | cons node forest ih =>
      cases chosen : choose node with
      | false =>
          rw [List.filter_cons_of_pos (by simp [chosen]), List.filter_cons_of_neg (by simp [chosen]),
            slots_cons, slots_cons, ← ih, add_assoc]
      | true =>
          rw [List.filter_cons_of_neg (by simp [chosen]), List.filter_cons_of_pos chosen, slots_cons,
            slots_cons, ← ih, add_left_comm]

/-- Taking out the first node of a class takes out its slots. -/
theorem slots_eraseP {choose : Node σ → Bool} {forest : Forest σ} {node : Node σ}
    (first : forest.find? choose = some node) :
    slots (forest.eraseP choose) + node.slots = forest.slots := by
  induction forest with
  | nil => cases first
  | cons head forest ih =>
      cases chosen : choose head with
      | true =>
          rw [List.find?_cons_of_pos chosen, Option.some.injEq] at first
          rw [List.eraseP_cons_of_pos chosen, slots_cons, first, add_comm]
      | false =>
          rw [List.find?_cons_of_neg (by simp [chosen])] at first
          rw [List.eraseP_cons_of_neg (by simp [chosen]), slots_cons, slots_cons, add_assoc, ih first]

/-- Changing the first node of a class changes the slots as it changes those of the node. -/
theorem slots_modifyFirst {choose : Node σ → Bool} {change : Node σ → Node σ} {forest : Forest σ}
    {node : Node σ} (first : forest.find? choose = some node) {lost : Multiset σ}
    (changed : (change node).slots + lost = node.slots) :
    slots (forest.modifyFirst choose change) + lost = forest.slots := by
  induction forest with
  | nil => cases first
  | cons head forest ih =>
      rw [modifyFirst_cons]
      cases chosen : choose head with
      | true =>
          rw [List.find?_cons_of_pos chosen, Option.some.injEq] at first
          rw [if_pos rfl, slots_cons, slots_cons, first, add_right_comm, changed]
      | false =>
          rw [List.find?_cons_of_neg (by simp [chosen])] at first
          rw [if_neg Bool.false_ne_true, slots_cons, slots_cons, add_assoc, ih first]

end Forest

namespace Node

/-- A node holds its own slot and those of its children. -/
theorem slots_mk (slot : σ) (label : Label) (children : Forest σ) :
    (mk slot label children).slots = slot ::ₘ children.slots := by
  rw [slots, fold_mk]
  rfl

theorem slots_eq (node : Node σ) : node.slots = node.slot ::ₘ node.children.slots := by
  cases node with
  | mk slot label children => exact slots_mk slot label children

@[simp]
theorem slots_withChildren (node : Node σ) (children : Forest σ) :
    (node.withChildren children).slots = node.slot ::ₘ children.slots :=
  slots_mk _ _ _

@[simp]
theorem slots_withValue (node : Node σ) (value : Option String) :
    (node.withValue value).slots = node.slots := by
  rw [withValue, slots_mk, slots_eq]

end Node

private theorem Forest.count_eq_sum (forest : Forest σ) : forest.count = (forest.map Node.count).sum := by
  rw [count, List.sum_eq_foldl, List.foldl_map]

/-- A forest has as many slots as nodes, if each of its nodes has. -/
theorem Forest.card_slots_of_forall {forest : Forest σ}
    (each : ∀ node ∈ forest, node.slots.card = node.count) : forest.slots.card = forest.count := by
  rw [count_eq_sum]
  induction forest with
  | nil => rfl
  | cons node forest ih =>
      rw [List.forall_mem_cons] at each
      rw [slots_cons, Multiset.card_add, each.1, ih each.2, List.map_cons, List.sum_cons]

/-- A node has a slot for each node below it, and its own. -/
theorem Node.card_slots (node : Node σ) : node.slots.card = node.count := by
  induction node using Node.inductionOn with
  | combine slot label children ih =>
      rw [slots_mk, Multiset.card_cons, Forest.card_slots_of_forall ih, Forest.count_eq_sum, count, fold_mk,
        List.sum_eq_foldl]
      rfl

/-- A forest holds as many slots as it has nodes. -/
theorem Forest.card_slots (forest : Forest σ) : forest.slots.card = forest.count :=
  card_slots_of_forall fun node _ => node.card_slots

/-! ## Keeping account of slots -/

/-- Whether the slots that are held, none of them twice, and those that were given up are all that were
handed out. -/
structure Slots.AccountFor (slots : Slots) (held : Multiset Nat) : Prop where
  apart : held.Nodup
  handedOut : ∀ slot ∈ held, slot < slots.used
  counted : slots.used = held.card + slots.garbage

namespace SlotM

/-- Whether a computation that is given some slots leaves others in their place, so that the account is
right afterwards, whatever else is held; and whether something holds of what it makes. -/
def Trades (step : SlotM α) (given : Multiset Nat) (left : α → Multiset Nat) (holds : α → Prop) : Prop :=
  ∀ slots others, slots.AccountFor (others + given) →
    (StateT.run (m := Id) step slots).2.AccountFor
      (others + left (StateT.run (m := Id) step slots).1) ∧ holds (StateT.run (m := Id) step slots).1

variable {step : SlotM α} {next : α → SlotM β} {given : Multiset Nat} {left : α → Multiset Nat}
  {middle : α → Multiset Nat} {leftOver : β → Multiset Nat} {holds : α → Prop} {result : β → Prop}

namespace Trades

theorem pure {answer : α} (same : left answer = given) (is : holds answer) :
    Trades (pure answer) given left holds :=
  fun _ _ account => ⟨same.symm ▸ account, is⟩

/-- What the first step leaves is what the second one is given. -/
theorem bind (first : Trades step given middle holds)
    (rest : ∀ answer, holds answer → Trades (next answer) (middle answer) leftOver result) :
    Trades (step >>= next) given leftOver result := by
  intro slots others account
  obtain ⟨later, is⟩ := first slots others account
  rw [StateT.run_bind]
  exact rest _ is _ others later

/-- A computation leaves alone what it is not given. -/
theorem beside (traded : Trades step given left holds) {kept whole : Multiset Nat}
    (split : whole = kept + given) : Trades step whole (fun answer => kept + left answer) holds := by
  intro slots others account
  rw [split, ← add_assoc] at account
  rw [← add_assoc]
  exact traded slots (others + kept) account

private theorem of_makes (traded : Trades step given left fun _ => True) (made : Makes step holds) :
    Trades step given left holds :=
  fun slots others account => ⟨(traded slots others account).1, made slots⟩

private theorem imp (traded : Trades step given left holds) {weaker : α → Prop}
    (implies : ∀ answer, holds answer → weaker answer) : Trades step given left weaker :=
  fun slots others account =>
    ⟨(traded slots others account).1, implies _ (traded slots others account).2⟩

/-- The next slot is held by nobody. -/
theorem fresh : Trades Slots.fresh 0 (fun slot => {slot}) fun _ => True := by
  intro slots others account
  rw [add_zero] at account
  have unused : slots.used ∉ others := fun held => (account.handedOut _ held).false
  change (Slots.AccountFor { slots with used := slots.used + 1 } (others + {slots.used})) ∧ True
  rw [add_comm others, Multiset.singleton_add]
  refine ⟨⟨Multiset.nodup_cons.mpr ⟨unused, account.apart⟩, fun slot held => ?_, ?_⟩, trivial⟩
  · rcases Multiset.mem_cons.mp held with rfl | held
    · exact Nat.lt_succ_self _
    · exact (account.handedOut slot held).trans (Nat.lt_succ_self _)
  · have counted := account.counted
    rw [Multiset.card_cons]
    change slots.used + 1 = others.card + 1 + slots.garbage
    omega

/-- Slots that are given up are not held any more. -/
theorem giveUp (lost : Multiset Nat) :
    Trades (Slots.giveUp lost.card) lost (fun _ => 0) fun _ => True := by
  intro slots others account
  change (Slots.AccountFor { slots with garbage := slots.garbage + lost.card } (others + 0)) ∧ True
  rw [add_zero]
  refine ⟨⟨(Multiset.nodup_add.mp account.apart).1, fun slot held => ?_, ?_⟩, trivial⟩
  · exact account.handedOut slot (Multiset.mem_add.mpr (Or.inl held))
  · have counted := account.counted
    rw [Multiset.card_add] at counted
    change slots.used = others.card + (slots.garbage + lost.card)
    omega

end Trades

/-- Whether a computation gives up no slots. -/
def Hoards (step : SlotM α) : Prop :=
  ∀ slots, (StateT.run (m := Id) step slots).2.garbage = slots.garbage

namespace Hoards

theorem pure (answer : α) : Hoards (pure answer) :=
  fun _ => rfl

theorem fresh : Hoards Slots.fresh :=
  fun _ => rfl

theorem bind (first : Hoards step) (rest : ∀ answer, Hoards (next answer)) : Hoards (step >>= next) := by
  intro slots
  rw [StateT.run_bind]
  exact (rest _ _).trans (first slots)

end Hoards

end SlotM

open SlotM

/-! ## Handing out slots -/

private theorem Forest.trades_mapM_settle {forest : Forest σ}
    (each : ∀ node ∈ forest, Trades node.settle 0 Node.slots fun _ => True) :
    Trades (forest.mapM Node.settle) 0 Forest.slots fun _ => True := by
  induction forest with
  | nil => exact Trades.pure rfl trivial
  | cons node forest ih =>
      rw [List.forall_mem_cons] at each
      rw [List.mapM_cons]
      refine each.1.bind fun settled _ => ?_
      refine ((ih each.2).beside (add_zero settled.slots).symm).bind fun others _ => ?_
      exact Trades.pure (slots_cons settled others) trivial

private theorem Node.trades_settle (node : Node σ) : Trades node.settle 0 Node.slots fun _ => True := by
  induction node using Node.inductionOn with
  | combine slot label children ih =>
      rw [settle, fold_mk, List.mapM_map]
      refine Trades.fresh.bind fun slot _ => ?_
      refine ((Forest.trades_mapM_settle ih).beside (add_zero {slot}).symm).bind fun settled _ => ?_
      exact Trades.pure (slots_mk slot label settled) trivial

/-- Whether there is nothing below the members of leaf-lists. -/
inductive Node.EndsInMembers : Node σ → Prop
  | intro {slot : σ} {label : Label} {children : Forest σ}
      (ends : label.kind = .leafList → children = [])
      (below : ∀ child ∈ children, EndsInMembers child) : EndsInMembers (mk slot label children)

namespace Node

/-- Members of leaf-lists are the ends of a tree. -/
theorem endsInMembers_iff {node : Node σ} : node.EndsInMembers ↔
    (node.kind = .leafList → node.children = []) ∧ ∀ child ∈ node.children, child.EndsInMembers := by
  constructor
  · rintro ⟨ends, below⟩
    exact ⟨ends, below⟩
  · intro ⟨ends, below⟩
    cases node with
    | mk slot label children => exact ⟨ends, below⟩

@[simp]
theorem endsInMembers_bare {node : Node σ} : node.bare.EndsInMembers ↔ node.EndsInMembers := by
  induction node using Node.inductionOn with
  | combine slot label children ih =>
      rw [endsInMembers_iff, endsInMembers_iff, kind_bare, children_bare, Forest.bare, List.map_eq_nil_iff,
        List.forall_mem_map]
      exact and_congr_right fun _ => forall₂_congr ih

/-- A member of a leaf-list has only its own slot. -/
theorem card_slots_of_member {node : Node σ} (ends : node.EndsInMembers) (listed : node.kind = .leafList) :
    node.slots.card = 1 := by
  rw [slots_eq, (endsInMembers_iff.mp ends).1 listed]
  rfl

end Node

namespace Forest

private theorem endsInMembers_of_bare_eq {forest : Forest σ} {settled : Forest Nat}
    (ends : ∀ node ∈ forest, node.EndsInMembers) (same : settled.bare = forest.bare) :
    ∀ node ∈ settled, node.EndsInMembers := by
  have bare : ∀ tree ∈ settled.bare, tree.EndsInMembers := by
    rw [same, Forest.bare, List.forall_mem_map]
    exact fun node member => Node.endsInMembers_bare.mpr (ends node member)
  rw [Forest.bare, List.forall_mem_map] at bare
  exact fun node member => Node.endsInMembers_bare.mp (bare node member)

/-- As many slots are given up for the members of a leaf-list as there are members. -/
theorem card_slots_members {siblings : Forest σ} (ends : ∀ node ∈ siblings, node.EndsInMembers)
    (name : String) : (slots (siblings.filter fun node => node.label.isMemberOf name)).card =
      siblings.length - (siblings.filter fun node => !node.label.isMemberOf name).length := by
  have single : ∀ count ∈ (siblings.filter fun node => node.label.isMemberOf name).map Node.count,
      count = 1 := by
    rw [List.forall_mem_map]
    intro node member
    obtain ⟨member, isMember⟩ := List.mem_filter.mp member
    rw [← Node.card_slots]
    exact Node.card_slots_of_member (ends node member) (Label.isMemberOf_iff.mp isMember).1
  have lengths := siblings.length_eq_length_filter_add fun node => node.label.isMemberOf name
  rw [card_slots, count_eq_sum, List.sum_eq_card_nsmul _ 1 single, List.length_map, smul_eq_mul, mul_one]
  omega

/-! ## Merging -/

/-- Settling takes fresh slots for the nodes of a forest, and gives up none. -/
theorem trades_settle {forest : Forest σ} (ends : ∀ node ∈ forest, node.EndsInMembers) :
    Trades forest.settle 0 slots fun settled => ∀ node ∈ settled, node.EndsInMembers :=
  ((trades_mapM_settle fun node _ => node.trades_settle).of_makes forest.makes_settle).imp
    fun _ => endsInMembers_of_bare_eq ends

private theorem trades_replaceMembers {siblings : Forest Nat} {members : Forest σ}
    (ends : ∀ node ∈ siblings, node.EndsInMembers) (memberEnds : ∀ node ∈ members, node.EndsInMembers)
    (name : String) : Trades (siblings.replaceMembers name members) siblings.slots slots
      fun replaced => ∀ node ∈ replaced, node.EndsInMembers := by
  unfold replaceMembers
  simp only
  rw [← card_slots_members ends, ← slots_filter (fun node => node.label.isMemberOf name) siblings]
  refine ((Trades.giveUp _).beside rfl).bind fun _ _ => ?_
  refine ((trades_settle memberEnds).beside rfl).bind fun settled settledEnds => Trades.pure ?_ ?_
  · rw [slots_append, slots_append, add_right_comm, ← slots_append, List.take_append_drop]
  · have otherEnds : ∀ node ∈ siblings.filter fun node => !node.label.isMemberOf name,
        node.EndsInMembers := fun node member => ends node (List.mem_filter.mp member).1
    simp only [List.forall_mem_append]
    exact ⟨⟨fun node member => otherEnds node (List.mem_of_mem_take member), settledEnds⟩,
      fun node member => otherEnds node (List.mem_of_mem_drop member)⟩

/-- The members of the leaf-lists of a forest are among its nodes. -/
theorem mem_of_mem_leafLists {source members : Forest σ} {name : String} {node : Node σ}
    (listed : (name, members) ∈ source.leafLists) (member : node ∈ members) : node ∈ source := by
  unfold leafLists at listed
  obtain ⟨_, _, made⟩ := List.mem_map.mp listed
  cases made
  exact (List.mem_filter.mp (List.mem_filter.mp member).1).1

private theorem trades_replaceLists {siblings : Forest Nat} {source : Forest σ}
    (ends : ∀ node ∈ siblings, node.EndsInMembers) (sourceEnds : ∀ node ∈ source, node.EndsInMembers) :
    Trades (siblings.replaceLists source) siblings.slots slots
      fun replaced => ∀ node ∈ replaced, node.EndsInMembers := by
  have listEnds : ∀ list ∈ source.leafLists, ∀ node ∈ list.2, node.EndsInMembers :=
    fun list listed node member => sourceEnds node (mem_of_mem_leafLists listed member)
  unfold replaceLists
  generalize source.leafLists = lists at listEnds
  induction lists generalizing siblings with
  | nil => exact Trades.pure rfl ends
  | cons list lists ih =>
      rw [List.forall_mem_cons] at listEnds
      rw [List.foldlM_cons]
      exact (trades_replaceMembers ends listEnds.1 list.1).bind fun replaced replacedEnds =>
        ih replacedEnds listEnds.2

private theorem trades_mergeEach {source : Forest σ}
    (each : ∀ node ∈ source, ∀ siblings : Forest Nat, (∀ sibling ∈ siblings, sibling.EndsInMembers) →
      Trades (node.mergeInto siblings) siblings.slots slots
        fun merged => ∀ sibling ∈ merged, sibling.EndsInMembers)
    {siblings : Forest Nat} (ends : ∀ node ∈ siblings, node.EndsInMembers) :
    Trades (siblings.mergeEach source) siblings.slots slots
      fun merged => ∀ node ∈ merged, node.EndsInMembers := by
  induction source generalizing siblings with
  | nil =>
      rw [mergeEach]
      exact Trades.pure rfl ends
  | cons node source ih =>
      rw [List.forall_mem_cons] at each
      rw [mergeEach]
      exact (each.1 siblings ends).bind fun merged mergedEnds => ih each.2 mergedEnds

end Forest

private theorem Node.trades_settle_one {node : Node σ} (ends : node.EndsInMembers) :
    Trades node.settle 0 Node.slots Node.EndsInMembers := by
  refine (node.trades_settle.of_makes node.makes_settle).imp fun settled same => ?_
  rw [← endsInMembers_bare, same, endsInMembers_bare]
  exact ends

/-- Merging a node into siblings keeps account of the slots. -/
theorem Node.trades_mergeInto {node : Node σ} (nodeEnds : node.EndsInMembers) {siblings : Forest Nat}
    (ends : ∀ sibling ∈ siblings, sibling.EndsInMembers) :
    Trades (node.mergeInto siblings) siblings.slots Forest.slots
      fun merged => ∀ sibling ∈ merged, sibling.EndsInMembers := by
  induction node using Node.inductionOn generalizing siblings with
  | combine slot label children ih =>
      rw [mergeInto]
      by_cases listed : label.kind = .leafList
      · simp only [listed, ↓reduceIte]
        exact Trades.pure rfl ends
      · simp only [listed, ↓reduceIte]
        have whole := List.takeWhile_append_dropWhile (p := fun node : Node Nat =>
          !node.label.sameNode label) (l := siblings)
        have found := List.head?_dropWhile_not (fun node : Node Nat => !node.label.sameNode label) siblings
        generalize siblings.takeWhile (fun node => !node.label.sameNode label) = before at whole ⊢
        cases split : siblings.dropWhile fun node => !node.label.sameNode label with
        | nil =>
            refine ((trades_settle_one nodeEnds).beside (add_zero _).symm).bind fun settled settledEnds =>
              Trades.pure ?_ ?_
            · rw [Forest.slots_append, Forest.slots_cons, Forest.slots_nil, add_zero]
            · exact List.forall_mem_append.mpr ⟨ends, List.forall_mem_singleton.mpr settledEnds⟩
        | cons target after =>
            rw [split] at whole found
            rw [← whole] at ends ⊢
            obtain ⟨beforeEnds, rest⟩ := List.forall_mem_append.mp ends
            obtain ⟨targetEnds, afterEnds⟩ := List.forall_mem_cons.mp rest
            have placed : ∀ {merged : Node Nat}, merged.EndsInMembers →
                ∀ sibling ∈ before ++ merged :: after, sibling.EndsInMembers := fun mergedEnds =>
              List.forall_mem_append.mpr ⟨beforeEnds, List.forall_mem_cons.mpr ⟨mergedEnds, afterEnds⟩⟩
            have same : target.label.sameNode label := by simpa using found
            have noMember := (Label.sameNode_iff.mp same).1
            simp only
            by_cases leaf : label.kind = .leaf
            · simp only [leaf, ↓reduceIte, pure_bind]
              refine Trades.pure ?_ (placed ?_)
              · rw [Forest.slots_append, Forest.slots_append, Forest.slots_cons, Forest.slots_cons,
                  slots_withValue]
              · exact ⟨fun isMember => absurd isMember noMember, (endsInMembers_iff.mp targetEnds).2⟩
            · simp only [leaf, ↓reduceIte, pure_bind]
              have childEnds := (endsInMembers_iff.mp nodeEnds).2
              -- What stands beside the children of the target is left alone.
              have others : Forest.slots (before ++ target :: after) =
                  Forest.slots before + {target.slot} + Forest.slots after + target.children.slots := by
                rw [Forest.slots_append, Forest.slots_cons, slots_eq, ← Multiset.singleton_add]
                abel
              refine ((Forest.trades_replaceLists (endsInMembers_iff.mp targetEnds).2 childEnds).beside
                others).bind fun replaced replacedEnds => ?_
              refine ((Forest.trades_mergeEach (fun child member siblings ends => ih child member
                (childEnds child member) ends) replacedEnds).beside rfl).bind fun merged mergedEnds => ?_
              refine Trades.pure ?_ (placed ?_)
              · rw [Forest.slots_append, Forest.slots_cons, slots_withChildren, ← Multiset.singleton_add]
                abel
              · exact ⟨fun isMember => absurd isMember noMember, mergedEnds⟩

/-- Merging a forest into siblings keeps account of the slots. -/
theorem Forest.trades_mergeInto {source : Forest σ} (sourceEnds : ∀ node ∈ source, node.EndsInMembers)
    {siblings : Forest Nat} (ends : ∀ node ∈ siblings, node.EndsInMembers) :
    Trades (siblings.mergeInto source) siblings.slots slots
      fun merged => ∀ node ∈ merged, node.EndsInMembers := by
  unfold mergeInto
  refine (trades_replaceLists ends sourceEnds).bind fun replaced replacedEnds => ?_
  exact trades_mergeEach (fun node member siblings ends =>
    Node.trades_mergeInto (sourceEnds node member) ends) replacedEnds

end ConfigVetting
