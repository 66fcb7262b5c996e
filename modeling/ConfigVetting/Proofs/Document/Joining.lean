import ConfigVetting.Proofs.Document.Trees

/-! # Joining trees

What a document says after a forest is merged into it depends only on what both say: it is the join of
their trees (`ConfigVetting.Document.trees_merge`). Handing out slots anew changes nothing.
-/

namespace ConfigVetting

namespace Forest

/-- Siblings with the members of a leaf-list replaced. -/
def withMembers (siblings : Forest Unit) (name : String) (members : Forest Unit) : Forest Unit :=
  let isMember (node : Tree) := node.label.isMemberOf name
  let others := siblings.filter fun node => !isMember node
  let position := siblings.findIdx isMember
  others.take position ++ members ++ others.drop position

/-- Siblings with the members of every leaf-list of a source replaced. -/
def joinLists (siblings source : Forest Unit) : Forest Unit :=
  source.leafLists.foldl (fun siblings (name, members) => siblings.withMembers name members) siblings

end Forest

mutual

/-- Siblings with a node joined to them, members of leaf-lists apart. -/
def Node.joinInto (siblings : Forest Unit) : Tree → Forest Unit
  | .mk _ label children =>
    if label.kind = .leafList then siblings
    else
      let differs (node : Tree) := !node.label.sameNode label
      match siblings.dropWhile differs with
      | [] => siblings ++ [.tree label children]
      | target :: after =>
        let joined :=
          if label.kind = .leaf then target.withValue label.value
          else target.withChildren
            (Forest.joinEach (Forest.joinLists target.children children) children)
        siblings.takeWhile differs ++ joined :: after

/-- Siblings with the nodes of a forest joined to them in order, members of leaf-lists apart. -/
def Forest.joinEach (siblings : Forest Unit) : Forest Unit → Forest Unit
  | [] => siblings
  | node :: rest => Forest.joinEach (Node.joinInto siblings node) rest

end

/-- Siblings with a forest joined to them. -/
def Forest.join (siblings source : Forest Unit) : Forest Unit :=
  Forest.joinEach (siblings.joinLists source) source

/-- A node with another one that stands for the same joined to it. -/
def Forest.joined (target source : Tree) : Tree :=
  if source.kind = .leaf then target.withValue source.value
  else target.withChildren (target.children.join source.children)

namespace SlotM

variable {α β : Type}

/-- Whether something holds of what a computation makes, whatever slots are handed out before. -/
def Makes (step : SlotM α) (holds : α → Prop) : Prop :=
  ∀ slots, holds (StateT.run (m := Id) step slots).1

private theorem Makes.pure {answer : α} {holds : α → Prop} (given : holds answer) :
    Makes (pure answer) holds :=
  fun _ => given

private theorem Makes.bind {step : SlotM α} {next : α → SlotM β} {holds : α → Prop} {result : β → Prop}
    (made : Makes step holds) (rest : ∀ answer, holds answer → Makes (next answer) result) :
    Makes (step >>= next) result := by
  intro slots
  rw [StateT.run_bind]
  exact rest _ (made slots) _

private theorem Makes.any (step : SlotM α) : Makes step fun _ => True :=
  fun _ => trivial

end SlotM

open SlotM

variable {σ : Type}

/-- Handing out slots to the nodes of a forest does not change their trees, if it does not for any of
them. -/
theorem Forest.makes_mapM_settle {forest : Forest σ}
    (each : ∀ node ∈ forest, Makes node.settle fun settled => settled.bare = node.bare) :
    Makes (forest.mapM Node.settle) fun settled => settled.map Node.bare = forest.bare := by
  induction forest with
  | nil => exact Makes.pure rfl
  | cons node forest ih =>
      rw [List.mapM_cons]
      refine (each node List.mem_cons_self).bind fun settled head => ?_
      refine (ih fun later member => each later (List.mem_cons_of_mem _ member)).bind
        fun others tail => Makes.pure ?_
      rw [List.map_cons, Forest.bare_cons, head, tail]

/-- Handing out slots does not change the tree of a node. -/
theorem Node.makes_settle (node : Node σ) :
    Makes node.settle fun settled => settled.bare = node.bare := by
  induction node using Node.inductionOn with
  | combine slot label children ih =>
      rw [settle, fold_mk, List.mapM_map]
      refine (Makes.any _).bind fun fresh _ => ?_
      refine (Forest.makes_mapM_settle ih).bind fun settled same => Makes.pure ?_
      rw [bare_mk, bare_mk, ← same, Forest.bare]

namespace Forest

/-- Settling gives out slots and changes nothing else. -/
theorem makes_settle (forest : Forest σ) :
    Makes forest.settle fun settled => settled.bare = forest.bare :=
  makes_mapM_settle fun node _ => node.makes_settle

private theorem leafLists_bare (forest : Forest σ) :
    forest.bare.leafLists = forest.leafLists.map fun list => (list.1, list.2.bare) := by
  have members : forest.bare.filter (fun node => node.kind = .leafList) =
      bare (forest.filter fun node => node.kind = .leafList) := by
    simp only [bare, List.filter_map, Function.comp_def, Node.kind_bare]
  unfold leafLists
  rw [members]
  simp only [bare, List.map_map, List.filter_map, Function.comp_def, Node.name_bare]

private theorem makes_replaceMembers (siblings : Forest Nat) (name : String) (members : Forest σ) :
    Makes (siblings.replaceMembers name members) fun replaced =>
      replaced.bare = siblings.bare.withMembers name members.bare := by
  unfold replaceMembers
  refine (Makes.any _).bind fun _ _ => ?_
  refine (makes_settle members).bind fun settled same => Makes.pure ?_
  rw [bare_append, bare_append, same]
  have members : ∀ node : Node Nat, node.bare.label.isMemberOf name = node.label.isMemberOf name :=
    fun node => by rw [Node.label_bare]
  simp only [withMembers, bare, List.filter_map, List.findIdx_map, List.map_take, List.map_drop,
    Function.comp_def, members]

private theorem makes_replaceLists (siblings : Forest Nat) (source : Forest σ) :
    Makes (siblings.replaceLists source) fun replaced =>
      replaced.bare = siblings.bare.joinLists source.bare := by
  unfold replaceLists joinLists
  rw [leafLists_bare, List.foldl_map]
  generalize source.leafLists = lists
  induction lists generalizing siblings with
  | nil => exact Makes.pure rfl
  | cons list lists ih =>
      rw [List.foldlM_cons]
      refine (makes_replaceMembers siblings list.1 list.2).bind fun replaced same => ?_
      have rest := ih replaced
      rw [same] at rest
      exact rest

end Forest

/-- Merging the nodes of a forest into siblings joins their trees, if it does for each of them. -/
theorem Forest.makes_mergeEach {forest : Forest σ}
    (each : ∀ node ∈ forest, ∀ siblings, Makes (node.mergeInto siblings) fun merged =>
      merged.bare = node.bare.joinInto siblings.bare) (siblings : Forest Nat) :
    Makes (siblings.mergeEach forest) fun merged =>
      merged.bare = siblings.bare.joinEach forest.bare := by
  induction forest generalizing siblings with
  | nil =>
      rw [mergeEach, bare_nil, joinEach]
      exact Makes.pure rfl
  | cons node forest ih =>
      rw [mergeEach, bare_cons, joinEach]
      refine (each node List.mem_cons_self siblings).bind fun merged same => ?_
      rw [← same]
      exact ih (fun later member => each later (List.mem_cons_of_mem _ member)) merged

/-- Merging a node into siblings joins its tree to theirs. -/
theorem Node.makes_mergeInto (node : Node σ) (siblings : Forest Nat) :
    Makes (node.mergeInto siblings) fun merged => merged.bare = node.bare.joinInto siblings.bare := by
  induction node using Node.inductionOn generalizing siblings with
  | combine slot label children ih =>
      have differs : (fun node : Tree => !node.label.sameNode label) ∘ Node.bare =
          fun node : Node Nat => !node.label.sameNode label := by
        funext node
        simp only [Function.comp_apply, label_bare]
      rw [mergeInto, bare_mk, tree, joinInto]
      by_cases listed : label.kind = .leafList
      · simp only [listed, ↓reduceIte]
        exact Makes.pure rfl
      · simp only [listed, ↓reduceIte]
        rw [Forest.bare, List.dropWhile_map, List.takeWhile_map, differs]
        cases siblings.dropWhile fun node => !node.label.sameNode label with
        | nil =>
            refine (makes_settle _).bind fun settled same => Makes.pure ?_
            rw [Forest.bare_append, Forest.bare_cons, same, bare_mk]
            rfl
        | cons target after =>
            simp only [List.map_cons]
            have placed : ∀ {merged : Node Nat} {joined : Tree}, merged.bare = joined →
                Forest.bare ((siblings.takeWhile fun node => !node.label.sameNode label) ++
                  merged :: after) =
                  ((siblings.takeWhile fun node => !node.label.sameNode label).map bare) ++
                    joined :: after.map bare := by
              rintro merged _ rfl
              rw [Forest.bare, List.map_append, List.map_cons]
            by_cases leaf : label.kind = .leaf
            · rw [if_pos leaf, if_pos leaf]
              exact Makes.pure (placed (bare_withValue _ _))
            · rw [if_neg leaf, if_neg leaf]
              refine (Forest.makes_replaceLists target.children children).bind fun replaced same => ?_
              refine (Forest.makes_mergeEach ih replaced).bind fun merged whole => ?_
              refine Makes.pure (placed ?_)
              rw [bare_withChildren, whole, same, children_bare]

/-- Merging a forest into siblings joins their trees. -/
theorem Forest.makes_mergeInto (siblings : Forest Nat) (source : Forest σ) :
    Makes (siblings.mergeInto source) fun merged => merged.bare = siblings.bare.join source.bare := by
  unfold mergeInto join
  refine (makes_replaceLists siblings source).bind fun replaced same => ?_
  rw [← same]
  exact makes_mergeEach (fun node _ => node.makes_mergeInto) replaced

namespace Document

/-- A document after a merge says the join of what it said and of the forest. -/
theorem trees_merge (document : Document) (source : Forest σ) :
    (document.merge source).trees = document.trees.join source.bare :=
  Forest.makes_mergeInto document.roots source document.slots

/-- Merging documents joins their trees. -/
theorem trees_merge_roots (document source : Document) :
    (document.merge source.roots).trees = document.trees.join source.trees :=
  document.trees_merge source.roots

@[simp]
theorem trees_empty : empty.trees = [] := rfl

@[simp]
theorem trees_ofForest (forest : Forest σ) : (ofForest forest).trees = forest.bare :=
  forest.makes_settle {}

/-- Compacting a document does not change what it says. -/
@[simp]
theorem trees_compactIfSparse (document : Document) :
    document.compactIfSparse.trees = document.trees := by
  unfold compactIfSparse
  by_cases sparse : document.isSparse
  · rw [if_pos sparse]
    exact trees_ofForest document.roots
  · rw [if_neg sparse]

/-- An instance is found in a document where it is found in its trees. -/
theorem findInstance?_trees (document : Document) (table key : String) :
    document.trees.findInstance? table key =
      (document.roots.findInstance? table key).map Node.bare :=
  document.roots.findInstance?_bare table key

/-- Taking out a list instance takes it out of the trees, if it is there. -/
theorem trees_removeInstance (document : Document) (table key : String) :
    (document.removeInstance table key).trees =
      if (document.trees.findInstance? table key).isSome then
        document.trees.withoutInstance table key
      else document.trees := by
  rw [findInstance?_trees, removeInstance, removeInstance?]
  cases document.roots.findInstance? table key with
  | none => rfl
  | some node => exact document.roots.withoutInstance_bare table key

end Document

end ConfigVetting
