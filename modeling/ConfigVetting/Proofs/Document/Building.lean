import ConfigVetting.Proofs.Document.Slots

/-! # Documents built node by node

A document can be built by adding nodes below a path and by taking nodes out again. Each of these steps
keeps the account of the slots: those of the nodes that are added are fresh, and those below a node that is
taken out become garbage (`ConfigVetting.Document.IsAssembled.account`). A node that was made sure of is there,
so making sure of it again adds nothing (`ConfigVetting.Document.ensure_again`).
-/

namespace ConfigVetting

variable {σ : Type}

namespace Forest

variable {forest siblings : Forest σ} {node : Node σ} {change : Forest σ → Forest σ}
  {lost gained : Multiset σ} {path : List Nat} {position : Nat}

private theorem below?_cons (forest : Forest σ) (position : Nat) (path : List Nat) :
    forest.below? (position :: path) =
      forest[position]?.bind fun node => node.children.below? path := by
  cases path with
  | nil => cases there : forest[position]? <;> simp [below?, at?, there]
  | cons next rest => cases there : forest[position]? <;> simp [below?, at?, there]

/-- Changing a node changes the slots as it changes those of the node. -/
theorem slots_modify {alter : Node σ → Node σ} (there : forest[position]? = some node)
    (altered : (alter node).slots + lost = node.slots + gained) :
    slots (forest.modify position alter) + lost = forest.slots + gained := by
  induction forest generalizing position with
  | nil => simp at there
  | cons head forest ih =>
      cases position with
      | zero =>
          obtain rfl : head = node := Option.some.inj there
          rw [List.modify_zero_cons, slots_cons, slots_cons, add_right_comm, altered, add_right_comm]
      | succ position =>
          rw [List.modify_succ_cons, slots_cons, slots_cons, add_assoc, ih there, add_assoc]

/-- Taking out a node takes out its slots. -/
theorem slots_eraseIdx (there : forest[position]? = some node) :
    slots (forest.eraseIdx position) + node.slots = forest.slots := by
  induction forest generalizing position with
  | nil => simp at there
  | cons head forest ih =>
      cases position with
      | zero =>
          obtain rfl : head = node := Option.some.inj there
          rw [List.eraseIdx_cons_zero, slots_cons, add_comm]
      | succ position => rw [List.eraseIdx_cons_succ, slots_cons, slots_cons, add_assoc, ih there]

/-- Changing the siblings below a path changes the slots as it changes those of the siblings. -/
theorem slots_modifyBelow (below : forest.below? path = some siblings)
    (changed : (change siblings).slots + lost = siblings.slots + gained) :
    (forest.modifyBelow change path).slots + lost = forest.slots + gained := by
  induction path generalizing forest with
  | nil =>
      cases below
      exact changed
  | cons position rest ih =>
      rw [below?_cons] at below
      obtain ⟨node, there, deeper⟩ := Option.bind_eq_some_iff.mp below
      refine slots_modify there ?_
      rw [Node.slots_withChildren, Multiset.cons_add, ih deeper, ← Multiset.cons_add, ← Node.slots_eq]

/-- The siblings below a path are changed where they are changed. -/
theorem below?_modifyBelow (below : forest.below? path = some siblings) :
    (forest.modifyBelow change path).below? path = some (change siblings) := by
  induction path generalizing forest with
  | nil =>
      cases below
      rfl
  | cons position rest ih =>
      rw [below?_cons] at below
      obtain ⟨node, there, deeper⟩ := Option.bind_eq_some_iff.mp below
      rw [modifyBelow, below?_cons, List.getElem?_modify_eq, there, Option.map_eq_map, Option.map_some,
        Option.bind_some, Node.children_withChildren]
      exact ih deeper

end Forest

namespace Document

variable {document later : Document} {path : List Nat} {position : Nat} {name : String} {kind : NodeKind}
  {created : Bool}

/-- A node that is added gets a slot of its own. -/
theorem account_add (account : document.slots.AccountFor document.roots.slots)
    (below : (document.roots.below? path).isSome) (label : Label) :
    (document.add path label).slots.AccountFor (document.add path label).roots.slots := by
  obtain ⟨siblings, below⟩ := Option.isSome_iff_exists.mp below
  have added : (document.add path label).roots.slots + 0 =
      document.roots.slots + {document.slots.used} :=
    Forest.slots_modifyBelow below (by simp [Node.slots_mk])
  rw [add_zero] at added
  rw [added]
  exact (SlotM.Trades.fresh document.slots document.roots.slots (by rwa [add_zero])).1

private theorem detach_eq_some_iff : document.detach path position = some later ↔
    ∃ siblings, document.roots.below? path = some siblings ∧ ∃ node, siblings[position]? = some node ∧
      { roots := document.roots.modifyBelow (fun siblings => siblings.eraseIdx position) path
        slots := { document.slots with
          garbage := document.slots.garbage + node.count } : Document } = later := by
  simp only [detach, Option.bind_eq_bind, Option.bind_eq_some_iff, Option.some.injEq]

/-- The slots of a node that is taken out, and of all nodes below it, are given up. -/
theorem account_detach (account : document.slots.AccountFor document.roots.slots)
    (taken : document.detach path position = some later) :
    later.slots.AccountFor later.roots.slots := by
  obtain ⟨siblings, below, node, there, rfl⟩ := detach_eq_some_iff.mp taken
  have left : Forest.slots (document.roots.modifyBelow (fun siblings => siblings.eraseIdx position) path) +
      node.slots = document.roots.slots + 0 :=
    Forest.slots_modifyBelow below (by rw [Forest.slots_eraseIdx there, add_zero])
  rw [add_zero] at left
  have given := (SlotM.Trades.giveUp node.slots document.slots _ (left.symm ▸ account)).1
  rwa [add_zero, Node.card_slots] at given

/-- Making sure of a node finds the first one of its name and kind, or adds one. -/
theorem ensure_cases (ensured : document.ensure path name kind = some (later, position, created)) :
    ∃ siblings, document.roots.below? path = some siblings ∧
      ((siblings.findIdx? (fun node => node.name = name && node.kind = kind) = some position ∧
          later = document) ∨
        (siblings.findIdx? (fun node => node.name = name && node.kind = kind) = none ∧
          position = siblings.length ∧ later = document.add path (.plain name kind))) := by
  obtain ⟨siblings, below, found⟩ := Option.map_eq_some_iff.mp ensured
  refine ⟨siblings, below, ?_⟩
  split at found
  · next there =>
      cases found
      exact Or.inl ⟨there, rfl⟩
  · next absent =>
      cases found
      exact Or.inr ⟨absent, rfl, rfl⟩

/-- A node that was made sure of is there afterwards. -/
theorem ensure_again (ensured : document.ensure path name kind = some (later, position, created)) :
    later.ensure path name kind = some (later, position, false) := by
  obtain ⟨siblings, below, ⟨there, rfl⟩ | ⟨absent, rfl, rfl⟩⟩ := ensure_cases ensured
  · rw [ensure, below, Option.map_some, there]
  · have found : (siblings ++ [Node.mk document.slots.used (.plain name kind) []]).findIdx?
        (fun node => node.name = name && node.kind = kind) = some siblings.length := by
      rw [List.findIdx?_append, absent]
      simp [Node.name, Node.kind, Node.label, Label.plain]
    have deeper : (document.add path (.plain name kind)).roots.below? path = some _ :=
      Forest.below?_modifyBelow below
    rw [ensure, deeper, Option.map_some, found]

/-- Whether a document is built node by node. -/
inductive IsAssembled : Document → Prop
  | empty : IsAssembled empty
  | added {document : Document} (assembled : IsAssembled document) {path : List Nat}
      (below : (document.roots.below? path).isSome) (label : Label) : IsAssembled (document.add path label)
  | ensured {document later : Document} (assembled : IsAssembled document) {path : List Nat} {name : String}
      {kind : NodeKind} {position : Nat} {created : Bool}
      (ensured : document.ensure path name kind = some (later, position, created)) : IsAssembled later
  | detached {document later : Document} (assembled : IsAssembled document) {path : List Nat} {position : Nat}
      (taken : document.detach path position = some later) : IsAssembled later

/-- A document that is built node by node refers only to slots that were handed out, to none of them twice,
and counts all others as garbage. -/
theorem IsAssembled.account (assembled : document.IsAssembled) :
    document.slots.AccountFor document.roots.slots := by
  induction assembled with
  | empty => exact ⟨Multiset.nodup_zero, nofun, rfl⟩
  | added _ below label account => exact account_add account below label
  | ensured _ ensured account =>
      obtain ⟨siblings, below, ⟨_, rfl⟩ | ⟨_, _, rfl⟩⟩ := ensure_cases ensured
      · exact account
      · exact account_add account (Option.isSome_iff_exists.mpr ⟨siblings, below⟩) _
  | detached _ taken account => exact account_detach account taken

end Document

end ConfigVetting
