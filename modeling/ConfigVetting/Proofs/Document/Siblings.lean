import ConfigVetting.Proofs.Document.Joining

/-! # Siblings by their identities

A node is told from its siblings by its name, its kind and, in a list, its key, but the members of a
leaf-list are many of one name. A forest is clear if no two siblings stand for the same node and no
leaf has nodes below it; two siblings stand for the same node exactly if their identities agree and
they are no members (`ConfigVetting.Label.sameNode_iff`).
-/

namespace ConfigVetting

namespace Label

/-- What tells a node from its siblings: its name, its kind and, in a list, its key. -/
def identity (label : Label) : Label :=
  { name := label.name, kind := label.kind, key := if label.kind = .list then label.key else none }

/-- Labels stand for the same node if they have the same identity and are no members of a
leaf-list. -/
theorem sameNode_iff {first second : Label} :
    first.sameNode second ↔ first.kind ≠ .leafList ∧ first.identity = second.identity := by
  obtain ⟨name, kind, key, value⟩ := first
  obtain ⟨otherName, otherKind, otherKey, otherValue⟩ := second
  cases kind <;> cases otherKind <;> simp [sameNode, identity]

/-- A label belongs to a leaf-list if it is of that kind and name. -/
theorem isMemberOf_iff {label : Label} {name : String} :
    label.isMemberOf name ↔ label.kind = .leafList ∧ label.name = name := by
  rw [isMemberOf, Bool.and_eq_true, decide_eq_true_iff, decide_eq_true_iff]

end Label

namespace Forest

/-- The siblings that are no members of leaf-lists. -/
def singles (siblings : Forest Unit) : Forest Unit :=
  siblings.filter fun node => node.kind ≠ .leafList

/-- The identities of the siblings that are no members of leaf-lists, in order. -/
def identities (siblings : Forest Unit) : List Label :=
  siblings.singles.map fun node => node.label.identity

/-- The first sibling with an identity that is no member of a leaf-list. -/
def single? (siblings : Forest Unit) (identity : Label) : Option Tree :=
  siblings.singles.find? fun node => node.label.identity = identity

/-- The members of a leaf-list among the siblings, in order. -/
def membersOf (siblings : Forest Unit) (name : String) : Forest Unit :=
  siblings.filter fun node => node.label.isMemberOf name

/-- The siblings below a path of identities, or all at the top for the empty path. -/
def childrenAt : List Label → Forest Unit → Forest Unit
  | [], siblings => siblings
  | identity :: path, siblings =>
    match siblings.single? identity with
    | some node => childrenAt path node.children
    | none => []

/-- The single nodes of two lists of siblings are those of each, in order. -/
theorem singles_append (first second : Forest Unit) :
    singles (first ++ second) = first.singles ++ second.singles :=
  List.filter_append ..

private theorem singles_cons_of_single {node : Tree} (single : node.kind ≠ .leafList)
    (siblings : Forest Unit) : singles (node :: siblings) = node :: siblings.singles :=
  List.filter_cons_of_pos (by simpa using single)

private theorem singles_cons_of_member {node : Tree} (listed : node.kind = .leafList)
    (siblings : Forest Unit) : singles (node :: siblings) = siblings.singles :=
  List.filter_cons_of_neg (by simpa using listed)

/-- The single nodes are all but the members of leaf-lists. -/
theorem mem_singles_iff {siblings : Forest Unit} {node : Tree} :
    node ∈ siblings.singles ↔ node ∈ siblings ∧ node.kind ≠ .leafList := by
  rw [singles, List.mem_filter, decide_eq_true_iff]

theorem identities_append (first second : Forest Unit) :
    identities (first ++ second) = first.identities ++ second.identities := by
  rw [identities, singles_append, List.map_append]
  rfl

theorem identities_cons_of_single {node : Tree} (single : node.kind ≠ .leafList)
    (siblings : Forest Unit) :
    identities (node :: siblings) = node.label.identity :: siblings.identities := by
  rw [identities, singles_cons_of_single single]
  rfl

theorem identities_cons_of_member {node : Tree} (listed : node.kind = .leafList)
    (siblings : Forest Unit) : identities (node :: siblings) = siblings.identities := by
  rw [identities, singles_cons_of_member listed]
  rfl

/-- A single node is looked up in the first list of siblings, then in the second. -/
theorem single?_append (first second : Forest Unit) (identity : Label) :
    single? (first ++ second) identity = (first.single? identity).or (second.single? identity) := by
  rw [single?, singles_append, List.find?_append]
  rfl

theorem single?_cons_of_single {node : Tree} (single : node.kind ≠ .leafList)
    (siblings : Forest Unit) (identity : Label) :
    single? (node :: siblings) identity =
      if node.label.identity = identity then some node else siblings.single? identity := by
  rw [single?, singles_cons_of_single single, List.find?_cons]
  by_cases own : node.label.identity = identity <;> simp [own, single?]

theorem single?_cons_of_member {node : Tree} (listed : node.kind = .leafList)
    (siblings : Forest Unit) (identity : Label) :
    single? (node :: siblings) identity = siblings.single? identity := by
  rw [single?, singles_cons_of_member listed]
  rfl

/-- A single node is looked up in vain if no sibling has its identity. -/
theorem single?_eq_none_iff {siblings : Forest Unit} {identity : Label} :
    siblings.single? identity = none ↔ identity ∉ siblings.identities := by
  simp [single?, identities]

theorem isSome_single?_iff {siblings : Forest Unit} {identity : Label} :
    (siblings.single? identity).isSome ↔ identity ∈ siblings.identities := by
  rw [← Option.ne_none_iff_isSome, Ne, single?_eq_none_iff, Classical.not_not]

/-- A single node that is looked up is there and has the identity. -/
theorem of_single?_eq_some {siblings : Forest Unit} {identity : Label} {node : Tree}
    (found : siblings.single? identity = some node) :
    node ∈ siblings ∧ node.kind ≠ .leafList ∧ node.label.identity = identity := by
  obtain ⟨member, single⟩ := mem_singles_iff.mp (List.mem_of_find?_eq_some found)
  exact ⟨member, single, by simpa using List.find?_some found⟩

/-- Where no two siblings stand for the same node, each is the one with its identity. -/
theorem single?_of_mem {siblings : Forest Unit} (distinct : siblings.identities.Nodup) {node : Tree}
    (member : node ∈ siblings) (single : node.kind ≠ .leafList) :
    siblings.single? node.label.identity = some node := by
  induction siblings with
  | nil => cases member
  | cons head siblings ih =>
      by_cases listed : head.kind = .leafList
      · rw [identities_cons_of_member listed] at distinct
        rw [single?_cons_of_member listed]
        rcases List.mem_cons.mp member with rfl | later
        · exact absurd listed single
        · exact ih distinct later
      · rw [identities_cons_of_single listed, List.nodup_cons] at distinct
        rw [single?_cons_of_single listed]
        rcases List.mem_cons.mp member with rfl | later
        · rw [if_pos rfl]
        · have different : head.label.identity ≠ node.label.identity := by
            intro same
            refine distinct.1 (same ▸ ?_)
            exact List.mem_map_of_mem (mem_singles_iff.mpr ⟨later, single⟩)
          rw [if_neg different]
          exact ih distinct.2 later

theorem membersOf_append (first second : Forest Unit) (name : String) :
    membersOf (first ++ second) name = first.membersOf name ++ second.membersOf name :=
  List.filter_append ..

theorem membersOf_cons_of_single {node : Tree} (single : node.kind ≠ .leafList)
    (siblings : Forest Unit) (name : String) :
    membersOf (node :: siblings) name = siblings.membersOf name := by
  exact List.filter_cons_of_neg fun listed => single (Label.isMemberOf_iff.mp listed).1

/-- The members of a leaf-list belong to it. -/
theorem isMemberOf_of_mem_membersOf {siblings : Forest Unit} {name : String} {node : Tree}
    (member : node ∈ siblings.membersOf name) : node.label.isMemberOf name :=
  (List.mem_filter.mp member).2

end Forest

mutual

/-- Whether a node has nothing below it if it is a leaf or a member of a leaf-list, and is clear
below. -/
def Node.IsClear : Tree → Prop
  | .mk _ label children =>
    (label.kind = .leaf ∨ label.kind = .leafList → children = []) ∧ Forest.IsClear children

/-- Whether no two siblings stand for the same node, here and below, and no leaf or member of a
leaf-list has nodes below it. -/
def Forest.IsClear : Forest Unit → Prop
  | [] => True
  | node :: siblings =>
    (∀ other ∈ siblings, ¬node.label.sameNode other.label) ∧ node.IsClear ∧
      Forest.IsClear siblings

end

/-- A node is clear if leaves bear no children and its own children are clear. -/
theorem Node.isClear_iff {node : Tree} :
    node.IsClear ↔ (node.kind = .leaf ∨ node.kind = .leafList → node.children = []) ∧
      node.children.IsClear := by
  obtain ⟨slot, label, children⟩ := node
  rw [IsClear]
  rfl

namespace Forest

/-- A forest is clear if its nodes are and their identities differ. -/
theorem isClear_iff {siblings : Forest Unit} :
    siblings.IsClear ↔ siblings.identities.Nodup ∧ ∀ node ∈ siblings, node.IsClear := by
  induction siblings with
  | nil => simp [IsClear, identities, singles]
  | cons head siblings ih =>
      rw [IsClear, ih, List.forall_mem_cons]
      by_cases listed : head.kind = .leafList
      · rw [identities_cons_of_member listed]
        have apart : ∀ other ∈ siblings, ¬head.label.sameNode other.label := fun other _ same =>
          (Label.sameNode_iff.mp same).1 listed
        exact ⟨fun ⟨_, clear, distinct, rest⟩ => ⟨distinct, clear, rest⟩,
          fun ⟨distinct, clear, rest⟩ => ⟨apart, clear, distinct, rest⟩⟩
      · have apart : (∀ other ∈ siblings, ¬head.label.sameNode other.label) ↔
            head.label.identity ∉ identities siblings := by
          simp only [identities, List.mem_map, mem_singles_iff, not_exists, not_and, and_imp]
          refine forall₂_congr fun other _ => ⟨fun differs _ same => differs ?_, fun differs same => ?_⟩
          · exact Label.sameNode_iff.mpr ⟨listed, same.symm⟩
          · have identical := (Label.sameNode_iff.mp same).2
            have kinds : head.kind = other.label.kind := congrArg (fun label => label.kind) identical
            exact differs (fun otherListed => listed (kinds.trans otherListed)) identical.symm
        rw [identities_cons_of_single listed, List.nodup_cons, apart]
        exact ⟨fun ⟨new, clear, distinct, rest⟩ => ⟨⟨new, distinct⟩, clear, rest⟩,
          fun ⟨⟨new, distinct⟩, clear, rest⟩ => ⟨new, clear, distinct, rest⟩⟩

/-- The nodes below a node of a clear forest are clear. -/
theorem IsClear.children {siblings : Forest Unit} (clear : siblings.IsClear) {node : Tree}
    (member : node ∈ siblings) : node.children.IsClear :=
  (Node.isClear_iff.mp ((isClear_iff.mp clear).2 node member)).2

end Forest

end ConfigVetting
