import ConfigVetting.Proofs.Document.Merging

/-! # Merging once more

A document that is merged into another one changes nothing when it is merged into the result once more
(`ConfigVetting.Document.trees_merge_merge`), whatever the other document says. Of the document that is
merged this needs that no two siblings stand for the same node and that the members of each leaf-list
stand side by side. The first merge puts them side by side in the result, and the second one puts them
back where they stood.
-/

namespace ConfigVetting

/-- Whether no two siblings stand for the same node and the members of each leaf-list stand side by side,
here and below. -/
inductive Forest.IsTidy : Forest Unit → Prop
  | intro {siblings : Forest Unit}
      (apart : siblings.Pairwise fun first second => ¬first.label.sameNode second.label)
      (adjacent : ∀ name, siblings.membersOf name <:+: siblings)
      (below : ∀ node ∈ siblings, IsTidy node.children) : IsTidy siblings

namespace Forest

variable {siblings source members stretch : Forest Unit} {name : String}

/-- No two siblings have the same identity if none stand for the same node. -/
theorem nodup_identities_of_pairwise
    (apart : siblings.Pairwise fun first second => ¬first.label.sameNode second.label) :
    siblings.identities.Nodup := by
  refine List.pairwise_map.mpr (List.pairwise_filter.mpr (apart.imp ?_))
  intro first second differs single _ same
  have noMember : first.label.kind ≠ .leafList := of_decide_eq_true single
  exact differs (Label.sameNode_iff.mpr ⟨noMember, same⟩)

/-! ## Members side by side -/

/-- An item outside of a stretch of a list stands before it or behind it. -/
theorem split_of_notMem {α : Type} {stretch before after front back : List α} {item : α}
    (whole : before ++ item :: after = front ++ stretch ++ back) (outside : item ∉ stretch) :
    (∃ rest, front = before ++ item :: rest ∧ after = rest ++ stretch ++ back) ∨
      ∃ rest, back = rest ++ item :: after ∧ before = front ++ stretch ++ rest := by
  rcases List.append_eq_append_iff.mp whole.symm with ⟨rest, rfl, held⟩ | ⟨rest, split, behind⟩
  · exact Or.inr ⟨rest, held, rfl⟩
  · cases rest with
    | nil =>
        rw [List.append_nil] at split
        exact Or.inr ⟨[], behind.symm, by rw [List.append_nil, split]⟩
    | cons head rest =>
        obtain ⟨rfl, rfl⟩ := List.cons.inj behind
        rcases List.append_eq_append_iff.mp split with ⟨more, rfl, held⟩ | ⟨more, rfl, held⟩
        · exact absurd (held ▸ List.mem_append_right more List.mem_cons_self) outside
        · cases more with
          | nil =>
              rw [List.nil_append] at held
              exact absurd (held ▸ List.mem_cons_self) outside
          | cons first more =>
              obtain ⟨rfl, rfl⟩ := List.cons.inj held
              exact Or.inl ⟨more, rfl, rfl⟩

private theorem filter_notMember_of_nil (none : siblings.membersOf name = []) :
    (siblings.filter fun node => !node.label.isMemberOf name) = siblings := by
  refine List.filter_eq_self.mpr fun node member => ?_
  simpa using List.filter_eq_nil_iff.mp none node member

private theorem filter_notMember_of_members (own : ∀ node ∈ members, node.label.isMemberOf name) :
    (members.filter fun node => !node.label.isMemberOf name) = [] :=
  List.filter_eq_nil_iff.mpr fun node member => by simp [own node member]

/-- Members that replace a leaf-list stand where its first member stood. -/
theorem withMembers_of_first {before after : Forest Unit} {first : Tree}
    (none : membersOf before name = []) (own : first.label.isMemberOf name)
    (members : Forest Unit) :
    withMembers (before ++ first :: after) name members =
      before ++ members ++ after.filter fun node => !node.label.isMemberOf name := by
  have outside : ∀ node ∈ before, ¬node.label.isMemberOf name := List.filter_eq_nil_iff.mp none
  have position : (before ++ first :: after).findIdx (fun node => node.label.isMemberOf name) =
      before.length := by
    rw [List.findIdx_append, List.findIdx_eq_length_of_false fun node member => by
      simpa using outside node member, if_neg (Nat.lt_irrefl _), List.findIdx_cons, own]
    exact Nat.zero_add _
  have others : (before ++ first :: after).filter (fun node => !node.label.isMemberOf name) =
      before ++ after.filter fun node => !node.label.isMemberOf name := by
    rw [List.filter_append, filter_notMember_of_nil none, List.filter_cons_of_neg (by simp [own])]
  rw [withMembers, position, others, List.take_left, List.drop_left]

/-- Members that replace a leaf-list stand behind the siblings if there is none, and else where its first
member stood. -/
theorem withMembers_cases (siblings : Forest Unit) (name : String) (members : Forest Unit) :
    (siblings.membersOf name = [] ∧ siblings.withMembers name members = siblings ++ members) ∨
      ∃ before first after, siblings = before ++ first :: after ∧ first.label.isMemberOf name ∧
        siblings.withMembers name members =
          before ++ members ++ after.filter fun node => !node.label.isMemberOf name := by
  cases found : siblings.find? fun node => node.label.isMemberOf name with
  | none =>
      have outside := List.find?_eq_none.mp found
      have none : siblings.membersOf name = [] := List.filter_eq_nil_iff.mpr outside
      have position : siblings.findIdx (fun node => node.label.isMemberOf name) = siblings.length :=
        List.findIdx_eq_length_of_false fun node member => by simpa using outside node member
      refine Or.inl ⟨none, ?_⟩
      rw [withMembers, filter_notMember_of_nil none, position, List.take_length, List.drop_length,
        List.append_nil]
  | some first =>
      obtain ⟨own, before, after, rfl, outside⟩ := List.find?_eq_some_iff_append.mp found
      have none : membersOf before name = [] :=
        List.filter_eq_nil_iff.mpr fun node member => by simpa using outside node member
      exact Or.inr ⟨before, first, after, rfl, own, withMembers_of_first none own members⟩

/-- Replacing the members of a leaf-list by themselves changes nothing if they stand side by side. -/
theorem withMembers_self (adjacent : siblings.membersOf name <:+: siblings) :
    siblings.withMembers name (siblings.membersOf name) = siblings := by
  obtain ⟨front, back, whole⟩ := adjacent
  have own : ∀ node ∈ siblings.membersOf name, node.label.isMemberOf name :=
    fun node member => isMemberOf_of_mem_membersOf member
  have again : (siblings.membersOf name).membersOf name = siblings.membersOf name :=
    List.filter_eq_self.mpr own
  -- All members stand in the stretch, so that the siblings around it are none.
  have count := congrArg (fun siblings => (membersOf siblings name).length) whole
  simp only [membersOf_append, again, List.length_append] at count
  have noneBefore : membersOf front name = [] := List.length_eq_zero_iff.mp (by omega)
  have noneBehind : membersOf back name = [] := List.length_eq_zero_iff.mp (by omega)
  generalize siblings.membersOf name = members at whole own
  subst whole
  cases members with
  | nil =>
      rw [List.append_nil] at *
      rcases withMembers_cases (front ++ back) name [] with
        ⟨_, same⟩ | ⟨before, first, after, split, listed, _⟩
      · rw [same, List.append_nil]
      · have member : first ∈ membersOf (front ++ back) name :=
          List.mem_filter.mpr ⟨split ▸ List.mem_append_right _ List.mem_cons_self, listed⟩
        rw [membersOf_append, noneBefore, noneBehind] at member
        cases member
  | cons first rest =>
      rw [List.append_assoc, List.cons_append,
        withMembers_of_first noneBefore (own first List.mem_cons_self), List.filter_append,
        filter_notMember_of_members fun node member => own node (List.mem_cons_of_mem _ member),
        filter_notMember_of_nil noneBehind, List.nil_append, List.append_assoc, List.cons_append]

/-- A stretch without members of a leaf-list stays together when the members are replaced. -/
theorem infix_withMembers (together : stretch <:+: siblings) (none : stretch.membersOf name = [])
    (members : Forest Unit) : stretch <:+: siblings.withMembers name members := by
  rcases withMembers_cases siblings name members with
    ⟨_, whole⟩ | ⟨before, first, after, rfl, own, whole⟩
  · rw [whole]
    exact together.trans (List.prefix_append _ _).isInfix
  · obtain ⟨front, back, split⟩ := together
    have outside : first ∉ stretch :=
      fun member => List.filter_eq_nil_iff.mp none first member own
    rw [whole]
    rcases split_of_notMem split.symm outside with ⟨rest, _, rfl⟩ | ⟨rest, _, rfl⟩
    · rw [List.filter_append, List.filter_append, filter_notMember_of_nil none]
      rw [← List.append_assoc, ← List.append_assoc]
      exact List.infix_append _ _ _
    · rw [List.append_assoc, List.append_assoc, List.append_assoc, ← List.append_assoc front]
      exact List.infix_append _ _ _

/-- A stretch of members stays together when a node that is none is joined. -/
theorem infix_joinInto (together : stretch <:+: siblings) (listed : stretch.singles = [])
    {node : Tree} (single : node.kind ≠ .leafList) : stretch <:+: node.joinInto siblings := by
  rcases joinInto_cases siblings single with
    ⟨_, whole⟩ | ⟨before, target, after, rfl, targetSingle, _, _, whole⟩
  · rw [whole]
    exact together.trans (List.prefix_append _ _).isInfix
  · obtain ⟨front, back, split⟩ := together
    have outside : target ∉ stretch := fun member =>
      List.not_mem_nil (listed ▸ mem_singles_iff.mpr ⟨member, targetSingle⟩)
    rw [whole]
    rcases split_of_notMem split.symm outside with ⟨rest, _, rfl⟩ | ⟨rest, _, rfl⟩
    · exact ⟨before ++ joined target node :: rest, back, by simp only [List.append_assoc, List.cons_append]⟩
    · exact ⟨front, rest ++ joined target node :: after, by simp only [List.append_assoc]⟩

private theorem joinInto_of_member (siblings : Forest Unit) {node : Tree} (listed : node.kind = .leafList) :
    node.joinInto siblings = siblings := by
  obtain ⟨slot, label, children⟩ := node
  rw [Node.joinInto]
  exact if_pos listed

/-- A stretch of members stays together when nodes are joined one by one. -/
theorem infix_joinEach (together : stretch <:+: siblings) (listed : stretch.singles = [])
    (source : Forest Unit) : stretch <:+: siblings.joinEach source := by
  induction source generalizing siblings with
  | nil => rwa [joinEach]
  | cons node source ih =>
      rw [joinEach]
      refine ih ?_
      by_cases member : node.kind = .leafList
      · rwa [joinInto_of_member siblings member]
      · exact infix_joinInto together listed member

/-- The members of the leaf-lists that are replaced one by one stand side by side. -/
theorem infix_foldl_withMembers (source : Forest Unit) (names : List String)
    (siblings : Forest Unit)
    (given : name ∈ names ∨ source.membersOf name <:+: siblings) :
    source.membersOf name <:+: (names.map fun name => (name, source.membersOf name)).foldl
      (fun siblings (name, members) => withMembers siblings name members) siblings := by
  induction names generalizing siblings with
  | nil => exact given.resolve_left List.not_mem_nil
  | cons first names ih =>
      refine ih (siblings.withMembers first (source.membersOf first)) ?_
      by_cases later : name ∈ names
      · exact Or.inl later
      refine Or.inr ?_
      by_cases own : name = first
      · subst own
        rcases withMembers_cases siblings name (source.membersOf name) with
          ⟨_, whole⟩ | ⟨before, node, after, _, _, whole⟩
        · exact whole ▸ (List.suffix_append _ _).isInfix
        · exact whole ▸ List.infix_append _ _ _
      · have together : source.membersOf name <:+: siblings :=
          given.resolve_left fun member => (List.mem_cons.mp member).elim own later
        refine infix_withMembers together (List.filter_eq_nil_iff.mpr fun node member listed => own ?_) _
        have inName := Label.isMemberOf_iff.mp (isMemberOf_of_mem_membersOf member)
        exact inName.2.symm.trans (Label.isMemberOf_iff.mp listed).2

/-- The members of a leaf-list of a source stand side by side among joined siblings, however those of
the siblings stood. -/
theorem infix_join (held : source.membersOf name ≠ []) :
    source.membersOf name <:+: siblings.join source := by
  obtain ⟨names, lists, named⟩ := source.leafLists_eq
  have listed : (source.membersOf name).singles = [] :=
    List.filter_eq_nil_iff.mpr fun node member => by
      have own : node.kind = .leafList :=
        (Label.isMemberOf_iff.mp (isMemberOf_of_mem_membersOf member)).1
      simp [own]
  refine infix_joinEach ?_ listed source
  rw [joinLists, lists]
  exact infix_foldl_withMembers source names siblings (Or.inl ((named name).mpr held))

/-! ## Joining what is there -/

/-- Joining changes nothing if the siblings hold the leaf-lists of the source side by side and each of
its other nodes is joined to one that it does not change. -/
theorem join_eq_self
    (lists : ∀ name, source.membersOf name ≠ [] →
      siblings.membersOf name = source.membersOf name ∧ source.membersOf name <:+: siblings)
    (nodes : ∀ node ∈ source, node.kind ≠ .leafList → ∃ target,
      siblings.single? node.label.identity = some target ∧ joined target node = target) :
    siblings.join source = siblings := by
  have each : ∀ nodes ⊆ source, siblings.joinEach nodes = siblings := by
    intro rest within
    induction rest with
    | nil => rw [joinEach]
    | cons node rest ih =>
        obtain ⟨here, later⟩ := List.cons_subset.mp within
        rw [joinEach]
        have unchanged : node.joinInto siblings = siblings := by
          by_cases listed : node.kind = .leafList
          · exact joinInto_of_member siblings listed
          obtain ⟨target, found, same⟩ := nodes node here listed
          rcases joinInto_cases siblings listed with
            ⟨absent, _⟩ | ⟨before, other, after, split, single, identity, first, whole⟩
          · rw [absent] at found
            cases found
          · rw [split, single?_append, first, single?_cons_of_single single, if_pos identity,
              Option.none_or, Option.some.injEq] at found
            rw [whole, found, same, split, found]
        rw [unchanged]
        exact ih later
  obtain ⟨names, split, named⟩ := source.leafLists_eq
  have replaced : siblings.joinLists source = siblings := by
    rw [joinLists, split, List.foldl_map]
    have own : ∀ name ∈ names, siblings.withMembers name (source.membersOf name) = siblings := by
      intro name member
      obtain ⟨same, together⟩ := lists name ((named name).mp member)
      rw [← same] at together ⊢
      exact withMembers_self together
    clear named split
    induction names with
    | nil => rfl
    | cons name names ih =>
        rw [List.foldl_cons]
        change names.foldl _ (siblings.withMembers name (source.membersOf name)) = siblings
        rw [own name List.mem_cons_self]
        exact ih fun other member => own other (List.mem_cons_of_mem _ member)
  rw [join, replaced]
  exact each source (List.Subset.refl _)

/-- A node joined to itself does not change if the nodes below it do not. -/
theorem joined_self_of {node : Tree} (below : node.children.join node.children = node.children) :
    joined node node = node := by
  by_cases leaf : node.kind = .leaf
  · rw [joined_of_leaf _ leaf]
    cases node
    rfl
  · rw [joined_of_inner _ leaf, below]
    cases node
    rfl

/-- A node joined once more does not change the node any more if the nodes below it do not. -/
theorem joined_joined_of {target node : Tree}
    (below : (target.children.join node.children).join node.children =
      target.children.join node.children) : joined (joined target node) node = joined target node := by
  by_cases leaf : node.kind = .leaf
  · rw [joined_of_leaf _ leaf, joined_of_leaf _ leaf]
    rfl
  · rw [joined_of_inner _ leaf, joined_of_inner _ leaf]
    exact congrArg target.withChildren below

/-- Tidy siblings joined to themselves do not change. -/
theorem join_self (tidy : siblings.IsTidy) : siblings.join siblings = siblings := by
  induction tidy with
  | @intro siblings apart adjacent below ih =>
      refine join_eq_self (fun name _ => ⟨rfl, adjacent name⟩) fun node member single => ?_
      exact ⟨node, single?_of_mem (nodup_identities_of_pairwise apart) member single,
        joined_self_of (ih node member)⟩

/-- Tidy siblings that were joined once change nothing when they are joined once more. -/
theorem join_join (tidy : source.IsTidy) (siblings : Forest Unit) :
    (siblings.join source).join source = siblings.join source := by
  induction tidy generalizing siblings with
  | @intro source apart adjacent below ih =>
      have distinct := nodup_identities_of_pairwise apart
      refine join_eq_self (fun name held => ⟨?_, infix_join held⟩) fun node member single => ?_
      · rw [membersOf_join distinct, if_neg held]
      · rw [single?_join distinct, single?_of_mem distinct member single]
        cases siblings.single? node.label.identity with
        | none => exact ⟨node, rfl, joined_self_of (join_self (below node member))⟩
        | some target => exact ⟨_, rfl, joined_joined_of (ih node member target.children)⟩

/-! ## Tidy siblings -/

private theorem isTidy_nil : IsTidy [] :=
  .intro .nil (fun _ => List.nil_infix) fun _ member => nomatch member

private theorem isTidy_singleton {node : Tree} (single : node.kind ≠ .leafList)
    (below : node.children.IsTidy) : IsTidy [node] := by
  refine .intro (List.pairwise_singleton _ _) (fun name => ?_) fun other member => ?_
  · rw [membersOf_cons_of_single single]
    exact List.nil_infix
  · rwa [List.mem_singleton.mp member]

/-- A leaf with the members of one leaf-list behind it is tidy. -/
theorem isTidy_leaf_cons_members (leaf value list : String) (values : List String) :
    IsTidy (.tree (.leaf leaf value) [] :: values.map fun value => .tree (.member list value) []) := by
  refine .intro (List.pairwise_cons.mpr ⟨fun other member same => ?_, ?_⟩) (fun name => ?_)
    fun node member => ?_
  · obtain ⟨_, _, rfl⟩ := List.mem_map.mp member
    cases (Label.sameNode_iff.mp same).2
  · exact List.pairwise_map.mpr (List.pairwise_of_forall fun _ _ same =>
      (Label.sameNode_iff.mp same).1 rfl)
  · have single : (Node.tree (.leaf leaf value) []).kind ≠ .leafList := fun listed => by cases listed
    rw [membersOf_cons_of_single single]
    by_cases own : name = list
    · have all : membersOf (values.map fun value => .tree (.member list value) []) name =
          values.map fun value => .tree (.member list value) [] := by
        refine List.filter_eq_self.mpr fun node member => ?_
        obtain ⟨_, _, rfl⟩ := List.mem_map.mp member
        exact Label.isMemberOf_iff.mpr ⟨rfl, own.symm⟩
      rw [all]
      exact (List.suffix_cons _ _).isInfix
    · have none : membersOf (values.map fun value => .tree (.member list value) []) name = [] := by
        refine List.filter_eq_nil_iff.mpr fun node member listed => own ?_
        obtain ⟨_, _, rfl⟩ := List.mem_map.mp member
        exact (Label.isMemberOf_iff.mp listed).2.symm
      rw [none]
      exact List.nil_infix
  · rcases List.mem_cons.mp member with rfl | later
    · exact isTidy_nil
    · obtain ⟨_, _, rfl⟩ := List.mem_map.mp later
      exact isTidy_nil

end Forest

namespace Document

/-- The document of a port is tidy. -/
theorem isTidy_ofPort (name speed : String) (lanes : List String) :
    (ofPort name speed lanes).trees.IsTidy := by
  rw [ofPort, trees_ofForest, Forest.bare_tree]
  refine Forest.isTidy_singleton (fun listed => by cases listed) ?_
  refine Forest.isTidy_singleton (fun listed => by cases listed) ?_
  refine Forest.isTidy_singleton (fun listed => by cases listed) ?_
  exact Forest.isTidy_leaf_cons_members "speed" speed "lanes" lanes

/-- **Merging once more.** Whatever a document says, one with no two siblings that stand for the same node
and with the members of each leaf-list side by side changes nothing, and no order, when it is merged
into it a second time. -/
theorem trees_merge_merge (document source : Document) (tidy : source.trees.IsTidy) :
    ((document.merge source.roots).merge source.roots).trees = (document.merge source.roots).trees := by
  rw [trees_merge_roots, trees_merge_roots]
  exact Forest.join_join tidy document.trees

/-- A port with two speeds and its lanes apart from each other takes a speed and lanes, and keeps them
when it takes them once more. -/
theorem trees_merge_merge_port :
    let port (fields : Forest Unit) : Forest Unit := [.tree (.plain "ports" .module)
      [.tree (.plain "PORT" .container) [.tree (.listInstance "PORT_LIST" "x") fields]]]
    let lane (value : String) : Tree := .tree (.member "lanes" value) []
    let speed (value : String) : Tree := .tree (.leaf "speed" value) []
    let ports : Document := .ofForest (port [lane "1", speed "10", lane "2", speed "15"])
    let change : Document := .ofPort "x" "25" ["3", "4"]
    change.trees.IsTidy ∧
      (ports.merge change.roots).trees = port [lane "3", lane "4", speed "25", speed "15"] ∧
      ((ports.merge change.roots).merge change.roots).trees = (ports.merge change.roots).trees :=
  ⟨isTidy_ofPort "x" "25" ["3", "4"], by decide +kernel,
    trees_merge_merge _ _ (isTidy_ofPort "x" "25" ["3", "4"])⟩

end Document

end ConfigVetting
