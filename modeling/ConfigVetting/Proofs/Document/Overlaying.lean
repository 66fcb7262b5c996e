import ConfigVetting.Proofs.Document.SingleKeys

/-! # Laying rows over documents

In a table with single-valued keys, laying the state of a row over a document changes the place of that
row and no other (`ConfigVetting.Document.overlayRow_spec`). A patch is laid over the fields as they
are read back from the list instance, so what it leaves is determined by the row that was put in last.
-/

namespace ConfigVetting

namespace TableSchema

variable {σ : Type} {table : TableSchema}

/-- The fields read off an instance do not depend on its slots. -/
theorem instanceFields_bare (node : Node σ) :
    table.instanceFields node.bare = table.instanceFields node := by
  unfold instanceFields
  simp only [Node.children_bare, Forest.bare, List.foldl_map, Node.kind_bare, Node.name_bare,
    Node.value_bare, Node.leafValues_bare]

/-- The fields of a row as they are read back from its list instance. -/
def settled (table : TableSchema) (fields : Fields) : Fields :=
  table.instanceFields (table.instanceNode fields [])

/-- Key components are no fields of a list instance. -/
theorem instanceFields_instanceNode (table : TableSchema) (fields : Fields)
    (components : List String) :
    table.instanceFields (table.instanceNode fields components) = table.settled fields := by
  have skips : ∀ {β : Type} {step : β → Tree → β} (leaves : Forest Unit) (start : β),
      (∀ leaf ∈ leaves, ∀ found, step found leaf = found) → leaves.foldl step start = start := by
    intro β step leaves start keeps
    induction leaves with
    | nil => rfl
    | cons leaf leaves ih =>
        rw [List.forall_mem_cons] at keeps
        rw [List.foldl_cons, keeps.1]
        exact ih keeps.2
  have keyLeaf : ∀ leaf ∈ (table.keyNames.zip components).map fun field =>
      Node.tree (.leaf field.1 field.2) [], leaf.kind = .leaf ∧ table.isKey leaf.name = true := by
    intro leaf member
    obtain ⟨field, inside, rfl⟩ := List.mem_map.mp member
    exact ⟨rfl, List.contains_iff_mem.mpr (List.of_mem_zip inside).1⟩
  have children : (table.instanceNode fields components).children =
      ((table.keyNames.zip components).map fun field => Node.tree (.leaf field.1 field.2) []) ++
        (table.instanceNode fields []).children := by
    simp [instanceNode, Node.tree, Node.children]
  generalize ((table.keyNames.zip components).map fun field =>
    Node.tree (.leaf field.1 field.2) []) = keyLeaves at keyLeaf children
  unfold settled instanceFields
  rw [children, List.foldl_append, List.foldl_append, skips keyLeaves, skips keyLeaves]
  · intro leaf member members
    rw [(keyLeaf leaf member).1]
    rfl
  · intro leaf member fields
    simp only [(keyLeaf leaf member).1, (keyLeaf leaf member).2, ↓reduceIte]

/-- The fields read off the instance of a row are the settled ones. -/
theorem instanceFields_rowNode (table : TableSchema) (rowKey : String) (fields : Fields) :
    table.instanceFields (table.rowNode rowKey fields) = table.settled fields :=
  table.instanceFields_instanceNode fields _

end TableSchema

/-- What becomes of the list instance of a row by its state. -/
def RowState.instanceAfter (table : TableSchema) (rowKey : String) (state : RowState)
    (node : Option Tree) : Option Tree :=
  (state.apply (node.map table.instanceFields)).map (table.rowNode rowKey)

/-- Whether a shaped document holds a node at the place of a row and is otherwise as it was. -/
structure Document.Replaces (schema : Schema) (table : TableSchema) (rowKey : String)
    (node : Option Tree) (before after : Document) : Prop where
  shaped : after.IsShaped schema
  own : after.row? table rowKey = node
  others : ∀ other, schema.table? other.name = some other → ∀ key,
    ¬ (table.name = other.name ∧ rowKey = key) → after.row? other key = before.row? other key

namespace Document

open DocumentM

variable {schema : Schema} {table : TableSchema} {rowKey : String} {before after : Document}

private theorem Replaces.trans {later : Document} {node other : Option Tree}
    (first : Replaces schema table rowKey node before after)
    (second : Replaces schema table rowKey other after later) :
    Replaces schema table rowKey other before later :=
  ⟨second.shaped, second.own, fun table known key apart =>
    (second.others table known key apart).trans (first.others table known key apart)⟩

private theorem Replaces.self (table : TableSchema) (rowKey : String) (shaped : before.IsShaped schema) :
    Replaces schema table rowKey (before.row? table rowKey) before before :=
  ⟨shaped, rfl, fun _ _ _ _ => rfl⟩

private theorem replaces_removeInstance (known : schema.table? table.name = some table) (rowKey : String)
    (shaped : before.IsShaped schema) :
    Replaces schema table rowKey none before (before.removeInstance table.name rowKey) where
  shaped := shaped.removeInstance known rowKey
  own := by rw [row?_removeInstance shaped known known, if_pos ⟨rfl, rfl⟩]
  others other otherKnown key apart := by
    rw [row?_removeInstance shaped known otherKnown, if_neg apart]

variable {rows : KeyedRows} {components : List String}

/-- Taking out a row with a single-valued key takes out its list instance. -/
theorem outcome_removeRow (named : table.segments ≠ []) (single : table.IsSingle)
    (split : table.splitKey rowKey = some components) (document : Document) :
    (removeRow table rowKey).outcome document =
      (.ok (), document.removeInstance table.name rowKey) := by
  unfold removeRow
  obtain ⟨_, _, _, joined⟩ := TableSchema.splitKey_sound named split
  rw [outcome_except_bind (single.expandKey_eq named split), ← joined]
  rfl

/-- Putting in a row with a single-valued key that is not there puts in its list instance. -/
theorem putRow_spec (known : schema.table? table.name = some table) (named : table.segments ≠ [])
    (single : table.IsSingle) (split : table.splitKey rowKey = some components) (fields : Fields)
    (shaped : before.IsShaped schema) (absent : before.row? table rowKey = none) :
    ∃ after, (putRow schema table rowKey fields).outcome before = (.ok (), after) ∧
      Replaces schema table rowKey (some (table.rowNode rowKey fields)) before after := by
  have translated : Forest.ofRows schema (.single table.name rowKey fields) =
      .ok (table.forestOf [table.rowNode rowKey fields]) := by
    rw [Forest.ofRows_single known, single.rowNodes_eq named split]
    rfl
  have label := TableSchema.label_rowNode named split fields
  have added : (table.forestOf [table.rowNode rowKey fields]).IsShaped schema := by
    refine Forest.isShaped_forestOf known (fun row member => ?_) (List.nodup_singleton _)
    rw [List.mem_singleton.mp member]
    exact ⟨rowKey, label⟩
  have found : ∀ other, schema.table? other.name = some other → ∀ key,
      (before.merge (table.forestOf [table.rowNode rowKey fields])).row? other key =
        Forest.joinFound (before.row? other key)
          (if table.name = other.name ∧ rowKey = key then some (table.rowNode rowKey fields)
            else none) := by
    intro other otherKnown key
    rw [row?_merge shaped (by rwa [Forest.bare_tree]), Forest.bare_tree,
      Forest.reach?_forestOf_instancePlace known otherKnown, Forest.labelled?_cons, label]
    refine congrArg _ ?_
    by_cases sameName : table.name = other.name
    · by_cases sameKey : rowKey = key
      · rw [if_pos sameName, if_pos (by rw [sameKey]), if_pos ⟨sameName, sameKey⟩]
      · have apart : ¬ Label.listInstance table.listName rowKey = .listInstance table.listName key :=
          fun same => sameKey (Option.some.inj (congrArg Label.key same))
        rw [if_pos sameName, if_neg apart, if_neg fun own => sameKey own.2]
        rfl
    · rw [if_neg sameName, if_neg fun own => sameName own.1]
  refine ⟨before.merge (table.forestOf [table.rowNode rowKey fields]), ?_,
    shaped.merge (by rwa [Forest.bare_tree]), ?_, fun other otherKnown key apart => ?_⟩
  · unfold putRow
    rw [outcome_except_bind translated]
    rfl
  · rw [found table known, if_pos ⟨rfl, rfl⟩, absent]
    rfl
  · rw [found other otherKnown, if_neg apart]
    cases before.row? other key <;> rfl

/-- Changing the fields of a row with a single-valued key changes its list instance, if it is
there. -/
theorem patchInstance_spec (known : schema.table? table.name = some table)
    (named : table.segments ≠ []) (single : table.IsSingle)
    (split : table.splitKey rowKey = some components) (patch : Patch)
    (shaped : before.IsShaped schema) :
    ∃ after, (patchInstance schema table patch rowKey).outcome before = (.ok (), after) ∧
      Replaces schema table rowKey
        ((RowState.overlay patch).instanceAfter table rowKey (before.row? table rowKey))
        before after := by
  have found := findInstance?_eq_row? shaped known rowKey
  unfold patchInstance
  rw [outcome_bind, outcome_get]
  cases there : before.roots.findInstance? table.name rowKey with
  | none =>
      rw [there] at found
      have unchanged := Replaces.self table rowKey shaped
      rw [← found] at unchanged ⊢
      exact ⟨before, by simp only [there]; rfl, unchanged⟩
  | some node =>
      rw [there, Option.map_some] at found
      have removed := replaces_removeInstance known rowKey shaped
      obtain ⟨after, put, replaced⟩ := putRow_spec known named single split
        (patch.apply (table.instanceFields node)) removed.shaped removed.own
      refine ⟨after, ?_, ?_⟩
      · simp only [there]
        rw [outcome_modify_bind]
        exact put
      · rw [← found, RowState.instanceAfter, Option.map_some, TableSchema.instanceFields_bare]
        exact removed.trans replaced

/-- Laying the state of a row with a single-valued key over a document changes its list instance
alone. -/
theorem overlayRow_spec (known : schema.table? table.name = some table)
    (named : table.segments ≠ []) (single : table.IsSingle)
    (split : table.splitKey rowKey = some components) (state : RowState)
    (shaped : before.IsShaped schema) :
    ∃ after, (overlayRow schema table rowKey state).outcome before = (.ok (), after) ∧
      Replaces schema table rowKey (state.instanceAfter table rowKey (before.row? table rowKey))
        before after := by
  have removed := replaces_removeInstance known rowKey shaped
  have taken := outcome_removeRow named single split before
  cases state with
  | deleted => exact ⟨_, taken, removed⟩
  | present fields =>
      obtain ⟨after, put, replaced⟩ := putRow_spec known named single split fields removed.shaped
        removed.own
      refine ⟨after, ?_, removed.trans replaced⟩
      unfold overlayRow
      rw [outcome_bind, taken]
      exact put
  | overlay patch =>
      obtain ⟨after, patched, replaced⟩ :=
        patchInstance_spec known named single split patch shaped
      obtain ⟨_, _, _, joined⟩ := TableSchema.splitKey_sound named split
      refine ⟨after, ?_, replaced⟩
      unfold overlayRow
      rw [outcome_except_bind (single.expandKey_eq named split)]
      have same : patchInstance schema table patch (table.instanceKey components) =
          patchInstance schema table patch rowKey := by rw [joined]
      change (patchInstance schema table patch (table.instanceKey components) >>= fun _ =>
        pure ()).outcome before = _
      rw [same, outcome_bind, patched]
      rfl

/-- Laying the rows of an operation over a document one after another changes their list instances
alone. -/
theorem overlayEntries_spec {entries : List (String × Fields)}
    (known : schema.table? table.name = some table) (named : table.segments ≠ [])
    (single : table.IsSingle)
    (split : ∀ entry ∈ entries, ∃ components, table.splitKey entry.1 = some components)
    (distinct : (entries.map Prod.fst).Nodup) (operation : Operation)
    (shaped : before.IsShaped schema) :
    ∃ after, (entries.forM fun (rowKey, fields) =>
        overlayRow schema table rowKey (.ofEdit operation fields)).outcome before = (.ok (), after) ∧
      after.IsShaped schema ∧
      (∀ key, after.row? table key =
        match entries.find? fun entry => entry.1 = key with
        | some entry => (RowState.ofEdit operation entry.2).instanceAfter table key
            (before.row? table key)
        | none => before.row? table key) ∧
      ∀ other, schema.table? other.name = some other → table.name ≠ other.name → ∀ key,
        after.row? other key = before.row? other key := by
  induction entries generalizing before with
  | nil => exact ⟨before, rfl, shaped, fun _ => rfl, fun _ _ _ _ => rfl⟩
  | cons entry entries ih =>
      obtain ⟨rowKey, fields⟩ := entry
      rw [List.forall_mem_cons] at split
      rw [List.map_cons, List.nodup_cons] at distinct
      obtain ⟨⟨components, ownSplit⟩, restSplit⟩ := split
      obtain ⟨middle, laid, replaced⟩ :=
        overlayRow_spec known named single ownSplit (.ofEdit operation fields) shaped
      obtain ⟨after, laidRest, afterShaped, own, others⟩ :=
        ih restSplit distinct.2 replaced.shaped
      refine ⟨after, ?_, afterShaped, fun key => ?_, fun other otherKnown apart key => ?_⟩
      · change (overlayRow schema table rowKey (.ofEdit operation fields) >>= fun _ =>
          entries.forM _).outcome before = _
        rw [outcome_bind, laid]
        exact laidRest
      · rw [own, List.find?_cons]
        by_cases same : rowKey = key
        · subst same
          simp only [ByName.find?_eq_none_of_notMem distinct.1, decide_true]
          exact replaced.own
        · simp only [same, decide_false]
          rw [replaced.others table known key fun both => same both.2]
      · rw [others other otherKnown apart, replaced.others other otherKnown key fun both =>
          apart both.1]

end Document

end ConfigVetting
