import ConfigVetting.Document.Basic

/-! # Merging documents

A document merged into another adds what it says. Nodes that stand for the same thing are merged, a
leaf taking the value of the source; the members of a leaf-list that the source has replace all of
those in the destination, where the first of these stood; all other nodes of the source are added
behind their new siblings.
-/

namespace ConfigVetting

variable {σ : Type}

namespace Forest

/-- The members of each leaf-list among some siblings, in the order in which the names come
first. -/
def leafLists (siblings : Forest σ) : List (String × Forest σ) :=
  let members := siblings.filter fun node => node.kind = .leafList
  (members.map Node.name).eraseDups.map fun name =>
    (name, members.filter fun node => node.name = name)

/-- Siblings with the members of a leaf-list replaced. -/
def replaceMembers (siblings : Forest Nat) (name : String) (members : Forest σ) :
    SlotM (Forest Nat) := do
  let isMember (node : Node Nat) := node.label.isMemberOf name
  let others := siblings.filter fun node => !isMember node
  Slots.giveUp (siblings.length - others.length)
  let position := siblings.findIdx isMember
  return others.take position ++ (← members.settle) ++ others.drop position

/-- Siblings with the members of every leaf-list of a source replaced. -/
def replaceLists (siblings : Forest Nat) (source : Forest σ) : SlotM (Forest Nat) :=
  source.leafLists.foldlM (fun siblings (name, members) => siblings.replaceMembers name members)
    siblings

end Forest

mutual

/-- Siblings with a node merged into them, members of leaf-lists apart. -/
def Node.mergeInto (siblings : Forest Nat) : Node σ → SlotM (Forest Nat)
  | .mk slot label children => do
    if label.kind = .leafList then return siblings
    let differs (node : Node Nat) := !node.label.sameNode label
    match siblings.dropWhile differs with
    | [] => return siblings ++ [← (Node.mk slot label children).settle]
    | target :: after =>
      let merged ←
        if label.kind = .leaf then pure (target.withValue label.value)
        else do
          let replaced ← Forest.replaceLists target.children children
          pure (target.withChildren (← Forest.mergeEach replaced children))
      return siblings.takeWhile differs ++ merged :: after

/-- Siblings with the nodes of a forest merged into them in order, members of leaf-lists apart. -/
def Forest.mergeEach (siblings : Forest Nat) : Forest σ → SlotM (Forest Nat)
  | [] => pure siblings
  | node :: rest => do Forest.mergeEach (← Node.mergeInto siblings node) rest

end

/-- Siblings with a forest merged into them. -/
def Forest.mergeInto (siblings : Forest Nat) (source : Forest σ) : SlotM (Forest Nat) := do
  Forest.mergeEach (← siblings.replaceLists source) source

/-- The document with a forest merged into it. -/
def Document.merge (document : Document) (source : Forest σ) : Document :=
  run (document.roots.mergeInto source) document.slots

end ConfigVetting
