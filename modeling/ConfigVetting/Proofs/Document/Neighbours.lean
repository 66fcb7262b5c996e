import ConfigVetting.Proofs.Document.Gathering
import ConfigVetting.Proofs.Document.Holding
import ConfigVetting.Proofs.Document.Instances
import ConfigVetting.Proofs.Schema.Expansion

/-! # Rows next to a changed row

A document that is held has nothing but list instances in the containers of its tables, each table in one
place (`ConfigVetting.Document.IsHeld.isTabular`). Laying the state of a row over it, or taking a row out,
touches the list instances of the keys that the row stands for; all others keep what they hold and their
order, whatever table they are of (`ConfigVetting.Document.besidesRow_of_changes`).
-/

namespace ConfigVetting

namespace Forest

variable {schema : Schema} {table : TableSchema} {nodes added : Forest Unit} {touched : String → Bool}

/-- The nodes but those of some keys, in order. -/
def besides (nodes : Forest Unit) (touched : String → Bool) : Forest Unit :=
  nodes.filter fun node => !node.key.any touched

private theorem besides_append (first second : Forest Unit) (touched : String → Bool) :
    besides (first ++ second) touched = first.besides touched ++ second.besides touched :=
  List.filter_append ..

private theorem besides_cons_of_touched {node : Tree} (own : node.key.any touched = true)
    (nodes : Forest Unit) :
    besides (node :: nodes) touched = nodes.besides touched :=
  List.filter_cons_of_neg (by simp [own])

private theorem besides_eq_nil (own : ∀ node ∈ nodes, node.key.any touched = true) :
    nodes.besides touched = [] :=
  List.filter_eq_nil_iff.mpr fun node member => by simp [own node member]

/-- Taking out a node of a touched key leaves the others. -/
theorem besides_eraseP (nodes : Forest Unit) {key : String} (own : touched key = true) :
    besides (nodes.eraseP (Node.hasKey key)) touched = nodes.besides touched := by
  induction nodes with
  | nil => rfl
  | cons node nodes ih =>
      by_cases keyed : node.hasKey key = true
      · have isTouched : node.key.any touched = true := by
          rw [of_decide_eq_true (Bool.and_eq_true_iff.mp keyed).2]
          exact own
        rw [List.eraseP_cons_of_pos keyed, besides_cons_of_touched isTouched]
      · have kept := congrArg (besides [node] touched ++ ·) ih
        rwa [← besides_append, ← besides_append, List.singleton_append, List.singleton_append,
          ← List.eraseP_cons_of_neg keyed] at kept

/-- A node that stands for the same as a list instance has its key. -/
theorem key_eq_of_identity_eq {target node : Tree} (listed : node.kind = .list)
    (same : target.label.identity = node.label.identity) : target.key = node.key := by
  have kinds : target.label.kind = node.label.kind := congrArg (fun label => label.kind) same
  have keys := congrArg (fun label => label.key) same
  rw [Node.kind] at listed
  rwa [Label.identity, Label.identity, if_pos (kinds.trans listed), if_pos listed] at keys

/-- Joining a list instance of a touched key leaves the nodes of other keys. -/
theorem besides_joinInto (nodes : Forest Unit) {node : Tree} (listed : node.kind = .list)
    (own : node.key.any touched = true) :
    besides (node.joinInto nodes) touched = nodes.besides touched := by
  have noMember : node.kind ≠ .leafList := by
    rw [listed]
    decide
  rcases joinInto_cases nodes noMember with ⟨_, whole⟩ | ⟨before, target, after, rfl, _, same, _, whole⟩
  · rw [whole, besides_append, besides_cons_of_touched own]
    exact List.append_nil _
  · have targetOwn : target.key.any touched = true := by
      rwa [key_eq_of_identity_eq listed same]
    have joinedOwn : (joined target node).key.any touched = true := by
      rw [joined_of_inner target (by rw [listed]; decide)]
      exact targetOwn
    rw [whole, besides_append, besides_append, besides_cons_of_touched targetOwn,
      besides_cons_of_touched joinedOwn]

/-- Joining list instances of touched keys leaves the nodes of other keys. -/
theorem besides_join (nodes : Forest Unit) (instances : table.AreInstances added)
    (own : ∀ node ∈ added, node.key.any touched = true) :
    besides (nodes.join added) touched = nodes.besides touched := by
  have solid : ∀ node ∈ added, node.label.IsSolid := by
    intro node member
    obtain ⟨key, label⟩ := instances node member
    rw [label]
    exact Label.isSolid_listInstance _ _
  rw [join, joinLists_of_solid solid]
  clear solid
  induction added generalizing nodes with
  | nil => rw [joinEach]
  | cons node added ih =>
      obtain ⟨key, label⟩ := instances node List.mem_cons_self
      have listed : node.kind = .list := congrArg Label.kind label
      rw [List.forall_mem_cons] at own
      rw [joinEach, ih _ (fun one member => instances one (List.mem_cons_of_mem _ member)) own.2,
        besides_joinInto nodes listed own.1]

/-! ## Forests with list instances in their tables -/

/-- The trees of a table have its list instances, and none of another table. -/
theorem instancesIn_forestOf (table : TableSchema) (nodes : Forest Unit) (name : String) :
    (table.forestOf nodes).instancesIn name = if table.name = name then nodes else [] := by
  by_cases own : table.name = name
  · simp [instancesIn, TableSchema.forestOf, Node.isTable, Node.tree, Node.children, Node.kind, Node.name,
      Node.label, Label.plain, own]
  · simp [instancesIn, TableSchema.forestOf, Node.isTable, Node.tree, Node.children, Node.kind, Node.name,
      Node.label, Label.plain, own]

/-- A join of placed forests has the list instances of a table joined, or those of the later side alone if
the earlier one has none. -/
theorem IsPlaced.instancesIn_join {first second : Forest Unit} (placed : first.IsPlaced schema)
    (otherPlaced : second.IsPlaced schema) (known : schema.table? table.name = some table) :
    (first.instancesIn table.name = [] ∧
      (first.join second).instancesIn table.name = second.instancesIn table.name) ∨
    (first.join second).instancesIn table.name =
      (first.instancesIn table.name).join (second.instancesIn table.name) := by
  rw [(placed.join otherPlaced).instancesIn_eq known, placed.instancesIn_eq known,
    otherPlaced.instancesIn_eq known,
    reach?_join placed.orderly otherPlaced.orderly (by simp [TableSchema.place])]
  cases first.reach? table.place with
  | none => exact Or.inl ⟨rfl, rfl⟩
  | some target =>
      cases second.reach? table.place with
      | none =>
          refine Or.inr ?_
          change target.children = joinEach (joinLists target.children []) []
          rw [joinEach]
          rfl
      | some source => exact Or.inr rfl

/-- A list instance that is looked up stands in a container of its table. -/
theorem mem_instancesIn_of_mem_listInstances {forest : Forest Unit} {name : String} {node : Tree}
    (listed : node ∈ forest.listInstances name) : node ∈ forest.instancesIn name := by
  obtain ⟨root, top, container, below, isTable, inside⟩ := exists_container_of_mem listed
  exact List.mem_flatMap.mpr ⟨container,
    List.mem_filter.mpr ⟨List.mem_flatMap.mpr ⟨root, top, below⟩, isTable⟩, inside⟩

/-- A list instance of a placed forest that is not found by its key is not there. -/
theorem IsPlaced.hasKey_eq_false {forest : Forest Unit} (placed : forest.IsPlaced schema)
    (sound : schema.IsSound) {name key : String} (absent : forest.findInstance? name key = none)
    {node : Tree} (inside : node ∈ forest.instancesIn name) : ¬ node.hasKey key = true := by
  intro keyed
  cases known : schema.table? name with
  | none =>
      rw [placed.instancesIn_of_unknown known] at inside
      cases inside
  | some table =>
      cases (sound name table known).1
      refine List.find?_eq_none.mp absent node ?_ keyed
      rw [placed.listInstances_eq known]
      exact List.mem_filter.mpr ⟨inside, (Bool.and_eq_true_iff.mp keyed).1⟩

/-- Changing what stands in a table of a placed forest changes no other table. -/
theorem IsPlaced.instancesIn_changeAt {forest : Forest Unit} (placed : forest.IsPlaced schema)
    (sound : schema.IsSound) (known : schema.table? table.name = some table)
    {change : Forest Unit → Forest Unit} (leavesNone : change [] = []) (other : String) :
    (forest.changeAt change table.place).instancesIn other =
      if table.name = other then change (forest.instancesIn other) else forest.instancesIn other := by
  have later : (forest.changeAt change table.place).IsPlaced schema := placed.changeAt rfl change
  cases otherKnown : schema.table? other with
  | none =>
      rw [later.instancesIn_of_unknown otherKnown, placed.instancesIn_of_unknown otherKnown, leavesNone,
        ite_self]
  | some own =>
      cases (sound other own otherKnown).1
      have orderly : forest.IsOrderlyTo table.place.length := placed.orderly
      have deep : own.place.length = table.place.length := rfl
      rw [later.instancesIn_eq otherKnown, placed.instancesIn_eq otherKnown, reach?_changeAt orderly deep]
      by_cases same : table.name = own.name
      · cases Schema.eq_of_name_eq known otherKnown same
        rw [if_pos rfl, if_pos rfl]
        cases forest.reach? table.place with
        | none => exact leavesNone.symm
        | some container => rfl
      · have apart : table.place ≠ own.place := fun places =>
          same (congrArg Label.name (List.cons.inj (List.cons.inj places).2).1)
        rw [if_neg apart, if_neg same]

/-- Taking a list instance out of a placed forest takes it out of its table alone. -/
theorem IsPlaced.withoutInstance {forest : Forest Unit} (placed : forest.IsPlaced schema)
    (sound : schema.IsSound) {name key : String} (there : (forest.findInstance? name key).isSome) :
    (forest.withoutInstance name key).IsPlaced schema ∧ ∀ other,
      (forest.withoutInstance name key).instancesIn other =
        if name = other then (forest.instancesIn other).eraseP (Node.hasKey key)
        else forest.instancesIn other := by
  obtain ⟨node, found⟩ := Option.isSome_iff_exists.mp there
  have inside := mem_instancesIn_of_mem_listInstances (List.mem_of_find?_eq_some found)
  cases known : schema.table? name with
  | none =>
      rw [placed.instancesIn_of_unknown known] at inside
      cases inside
  | some table =>
      cases (sound name table known).1
      have held : (forest.reach? table.place).isSome := by
        rw [placed.instancesIn_eq known] at inside
        cases reached : forest.reach? table.place with
        | some container => rfl
        | none =>
            rw [reached] at inside
            cases inside
      rw [placed.withoutInstance_eq known held]
      exact ⟨placed.changeAt rfl _, placed.instancesIn_changeAt sound known rfl⟩

/-- Whether a forest has each table of a schema in one place, with nothing but list instances in it. -/
structure IsTabular (schema : Schema) (forest : Forest Unit) : Prop where
  placed : forest.IsPlaced schema
  instances : ∀ table, schema.table? table.name = some table →
    table.AreInstances (forest.instancesIn table.name)

namespace IsTabular

private theorem forestOf (known : schema.table? table.name = some table)
    (instances : table.AreInstances nodes) :
    (table.forestOf nodes).IsTabular schema where
  placed := isPlaced_forestOf known nodes
  instances other otherKnown := by
    rw [instancesIn_forestOf]
    by_cases same : table.name = other.name
    · cases Schema.eq_of_name_eq known otherKnown same
      rwa [if_pos rfl]
    · rw [if_neg same]
      exact fun _ member => absurd member List.not_mem_nil

private theorem join {first second : Forest Unit} (tabular : first.IsTabular schema)
    (otherTabular : second.IsTabular schema) : (first.join second).IsTabular schema where
  placed := tabular.placed.join otherTabular.placed
  instances table known := by
    have own := tabular.instances table known
    have others := otherTabular.instances table known
    rcases tabular.placed.instancesIn_join otherTabular.placed known with ⟨_, later⟩ | joined
    · rwa [later]
    · rw [joined]
      exact (ofKey_join own others).1

/-- Joining list instances of touched keys leaves all others in all tables. -/
theorem besides_join {first second : Forest Unit} (sound : schema.IsSound)
    (tabular : first.IsTabular schema) (otherTabular : second.IsTabular schema) {name : String}
    (own : ∀ node ∈ second.instancesIn name, node.key.any touched = true) :
    besides ((first.join second).instancesIn name) touched = besides (first.instancesIn name) touched := by
  cases known : schema.table? name with
  | none =>
      rw [(tabular.placed.join otherTabular.placed).instancesIn_of_unknown known,
        tabular.placed.instancesIn_of_unknown known]
  | some table =>
      cases (sound name table known).1
      rcases tabular.placed.instancesIn_join otherTabular.placed known with ⟨none, later⟩ | joined
      · rw [later, none, besides_eq_nil own]
        rfl
      · rw [joined, Forest.besides_join _ (otherTabular.instances table known) own]

end IsTabular

end Forest

namespace Document

open DocumentM

variable {schema : Schema} {document : Document}

/-- The document of rows has the list instances of the rows in their tables, and nothing else. -/
theorem isTabular_ofRows (sound : schema.IsSound) {rows : TableRows}
    (translated : ofRows schema rows = .ok document) : document.trees.IsTabular schema := by
  obtain ⟨placed, gathers⟩ := gathers_ofRows sound translated
  refine ⟨placed, fun table known => ?_⟩
  obtain ⟨rows, nodes, _, made, same⟩ := gathers.instances table known
  rw [List.map_id'] at same
  exact fun node member => (TableSchema.ofKey_rowsNodes made "").1 node (same.mem_iff.mp member)

/-- Taking a list instance out of a document takes it out of its table alone. -/
theorem isPlaced_removeInstance (sound : schema.IsSound) (placed : document.trees.IsPlaced schema)
    (name key : String) :
    (document.removeInstance name key).trees.IsPlaced schema ∧ ∀ other,
      (document.removeInstance name key).trees.instancesIn other =
        if name = other then (document.trees.instancesIn other).eraseP (Node.hasKey key)
        else document.trees.instancesIn other := by
  rw [trees_removeInstance]
  by_cases there : (document.trees.findInstance? name key).isSome
  · rw [if_pos there]
    exact placed.withoutInstance sound there
  · rw [if_neg there]
    refine ⟨placed, fun other => ?_⟩
    by_cases own : name = other
    · subst own
      rw [if_pos rfl, List.eraseP_of_forall_not fun node member =>
        placed.hasKey_eq_false sound (Option.not_isSome_iff_eq_none.mp there) member]
    · rw [if_neg own]

/-- Whether a document has each table in one place with nothing but list instances in it, and certain ones
besides those of touched keys. -/
structure IsFramed (schema : Schema) (touched : String → String → Bool) (frame : String → Forest Unit)
    (document : Document) : Prop where
  tabular : document.trees.IsTabular schema
  same : ∀ name, (document.trees.instancesIn name).besides (touched name) = frame name

namespace IsFramed

variable {table : TableSchema} {touched : String → String → Bool} {frame : String → Forest Unit}
  {rowKey : String}

/-- Taking out a list instance of a touched key keeps all others. -/
theorem removeInstance (sound : schema.IsSound) (framed : document.IsFramed schema touched frame)
    {name key : String} (own : touched name key = true) :
    (document.removeInstance name key).IsFramed schema touched frame := by
  obtain ⟨placed, instances⟩ := isPlaced_removeInstance sound framed.tabular.placed name key
  refine ⟨⟨placed, fun table known node member => ?_⟩, fun other => ?_⟩
  · rw [instances] at member
    refine framed.tabular.instances table known node ?_
    split at member
    · exact List.mem_of_mem_eraseP member
    · exact member
  · rw [instances, ← framed.same]
    by_cases same : name = other
    · rw [if_pos same, Forest.besides_eraseP _ (same ▸ own)]
    · rw [if_neg same]

/-- Merging list instances of touched keys into a document keeps all others. -/
theorem merge {σ : Type} (sound : schema.IsSound) (framed : document.IsFramed schema touched frame)
    {source : Forest σ} (sourceTabular : source.bare.IsTabular schema)
    (own : ∀ name, ∀ node ∈ source.bare.instancesIn name, node.key.any (touched name) = true) :
    (document.merge source).IsFramed schema touched frame where
  tabular := by
    rw [trees_merge]
    exact framed.tabular.join sourceTabular
  same name := by
    rw [trees_merge, framed.tabular.besides_join sound sourceTabular (own name), framed.same]

/-- The document of a single row has the list instances of the row. -/
theorem isTabular_single (sound : schema.IsSound) {name : String} {fields : Fields}
    {source : Forest Unit} (translated : Forest.ofRows schema (.single name rowKey fields) = .ok source) :
    ∃ table, schema.table? name = some table ∧ source.IsTabular schema ∧
      ∀ other, ∀ node ∈ source.instancesIn other, other = name ∧
        ∃ key ∈ table.instanceKeys rowKey, node.key = some key := by
  cases known : schema.table? name with
  | none =>
      have entry : (name, (∅ : KeyedRows).insert rowKey fields) ∈
          (TableRows.single name rowKey fields).toList := by
        rw [TableRows.single, ByName.toList_single]
        exact List.mem_singleton_self _
      obtain ⟨_, table, _, found, _⟩ := (Forest.mem_containers_of_foldlM translated).1 _ entry
      cases known.symm.trans found
  | some table =>
      cases (sound name table known).1
      rw [Forest.ofRows_single known] at translated
      obtain ⟨nodes, made, rfl⟩ := Except.map_eq_ok_iff.mp translated
      obtain ⟨combinations, expanded, rfl⟩ := Except.map_eq_ok_iff.mp made
      refine ⟨table, rfl, .forestOf known (table.areInstances_map fields combinations),
        fun other node member => ?_⟩
      rw [Forest.instancesIn_forestOf, List.mem_ite_nil_right] at member
      obtain ⟨components, chosen, rfl⟩ := List.mem_map.mp member.2
      exact ⟨member.1.symm, table.instanceKey components,
        TableSchema.mem_instanceKeys_iff.mpr ⟨combinations, expanded, components, chosen, rfl⟩, rfl⟩

private theorem keeps_removeRow (sound : schema.IsSound)
    (own : ∀ key ∈ table.instanceKeys rowKey, touched table.name key = true) :
    (removeRow table rowKey).Keeps (IsFramed schema touched frame) :=
  Document.keeps_removeRow fun key member _ framed => framed.removeInstance sound (own key member)

/-- Laying the state of a row over a document keeps the list instances of all keys but those that the row
or the key of one of its list instances stands for. -/
theorem keeps_overlayRow (sound : schema.IsSound)
    (own : ∀ key ∈ table.instanceKeys rowKey, touched table.name key = true)
    (put : ∀ key, key = rowKey ∨ key ∈ table.instanceKeys rowKey → ∀ other,
      schema.table? table.name = some other → ∀ later ∈ other.instanceKeys key,
        touched table.name later = true) (state : RowState) :
    (overlayRow schema table rowKey state).Keeps (IsFramed schema touched frame) := by
  refine Document.keeps_overlayRow (fun key member _ framed => framed.removeInstance sound (own key member))
    (fun key ofRow fields source translated document framed => ?_) state
  obtain ⟨other, known, tabular, keyed⟩ := isTabular_single sound translated
  refine framed.merge sound (source.bare_tree.symm ▸ tabular) fun name node member => ?_
  rw [Forest.bare_tree] at member
  obtain ⟨rfl, later, inside, same⟩ := keyed name node member
  rw [same]
  exact put key ofRow other known later inside

/-- A change that keeps whatever stands besides touched keys keeps what a document has there. -/
theorem of_keeps {change : DocumentM Unit} (touched : String → String → Bool)
    (tabular : document.trees.IsTabular schema)
    (keeps : ∀ frame, change.Keeps (IsFramed schema touched frame)) :
    (change.outcome document).2.IsFramed schema touched fun name =>
      (document.trees.instancesIn name).besides (touched name) :=
  keeps _ document ⟨tabular, fun _ => rfl⟩

end IsFramed

/-- A document that is held has each table of its schema in one place, with nothing but list instances in
it. -/
theorem IsHeld.isTabular (sound : schema.IsSound) (held : document.IsHeld schema) :
    document.trees.IsTabular schema := by
  -- Every key counts as touched, so nothing has to be known of the rows that were changed.
  let touched : String → String → Bool := fun _ _ => true
  induction held with
  | translated made => exact isTabular_ofRows sound made
  | merged _ _ tabular sourceTabular =>
      rw [trees_merge_roots]
      exact tabular.join sourceTabular
  | overlaid _ table rowKey state tabular =>
      exact (IsFramed.of_keeps touched tabular fun _ => IsFramed.keeps_overlayRow sound
        (fun _ _ => rfl) (fun _ _ _ _ _ _ => rfl) state).tabular
  | rowRemoved _ table rowKey tabular =>
      exact (IsFramed.of_keeps touched tabular fun _ =>
        IsFramed.keeps_removeRow sound fun _ _ => rfl).tabular
  | instanceRemoved _ table key tabular =>
      have framed : IsFramed schema touched _ _ := ⟨tabular, fun _ => rfl⟩
      exact (framed.removeInstance sound rfl).tabular
  | compacted _ tabular =>
      rwa [show (Document.compact _).trees = _ from trees_ofForest _]
  | compactedIfSparse _ tabular => rwa [trees_compactIfSparse]

/-- Taking out a row adds no list instances to any table, and those that remain keep their order. -/
theorem instancesIn_removeRow_sublist (sound : schema.IsSound) (placed : document.trees.IsPlaced schema)
    (table : TableSchema) (rowKey name : String) :
    List.Sublist (((removeRow table rowKey).outcome document).2.trees.instancesIn name)
      (document.trees.instancesIn name) := by
  have keeps : (removeRow table rowKey).Keeps fun later => later.trees.IsPlaced schema ∧
      List.Sublist (later.trees.instancesIn name) (document.trees.instancesIn name) := by
    refine keeps_removeRow fun key _ middle before => ?_
    obtain ⟨later, instances⟩ := isPlaced_removeInstance sound before.1 table.name key
    refine ⟨later, ?_⟩
    rw [instances]
    split
    · exact List.eraseP_sublist.trans before.2
    · exact before.2
  exact (keeps document ⟨placed, .refl _⟩).2

/-- The list instances that a document has in a table of some name, in order, but those of a row. -/
def besidesRow (document : Document) (table : TableSchema) (rowKey name : String) : Forest Unit :=
  (document.trees.instancesIn name).besides fun key =>
    decide (name = table.name ∧ key ∈ table.instanceKeys rowKey)

/-- **Rows next to a changed row.** Laying the state of a row over a document that is held, or taking the
row out, leaves all list instances of all tables but those of the keys that the row stands for: they keep
what they hold and their order, and none comes or goes. This is so even if the change is rejected half-way,
as long as the keys of the list instances of the row split back into the components they are joined from. What
is left of the row itself once it is taken out keeps its order as well. -/
theorem besidesRow_of_changes [PatternReader] {modules : List ModuleDecl} {delimiter : String}
    (built : Schema.build modules delimiter = .ok schema) (held : document.IsHeld schema)
    {tableName : String} {table : TableSchema} (known : schema.table? tableName = some table)
    {rowKey : String} (splitsBack : table.SplitsBack rowKey) (name : String) :
    (∀ state, ((overlayRow schema table rowKey state).outcome document).2.besidesRow table rowKey name =
      document.besidesRow table rowKey name) ∧
    ((removeRow table rowKey).outcome document).2.besidesRow table rowKey name =
      document.besidesRow table rowKey name ∧
    List.Sublist (((removeRow table rowKey).outcome document).2.trees.instancesIn name)
      (document.trees.instancesIn name) := by
  have sound := Schema.isSound_of_build built
  obtain ⟨rfl, tableSound⟩ := sound _ table known
  have tabular := held.isTabular sound
  let touched (name key : String) : Bool :=
    decide (name = table.name ∧ key ∈ table.instanceKeys rowKey)
  have own : ∀ key ∈ table.instanceKeys rowKey, touched table.name key = true :=
    fun _ member => decide_eq_true ⟨rfl, member⟩
  have again : ∀ key ∈ table.instanceKeys rowKey, table.instanceKeys key = [key] := by
    intro key member
    obtain ⟨combinations, expanded, components, chosen, rfl⟩ := TableSchema.mem_instanceKeys_iff.mp member
    exact TableSchema.instanceKeys_eq (TableSchema.expandKey_instanceKey_of_split tableSound.named
      expanded chosen (splitsBack combinations expanded components chosen))
  refine ⟨fun state => ?_, ?_, instancesIn_removeRow_sublist sound tabular.placed table rowKey name⟩
  · refine (IsFramed.of_keeps touched tabular fun _ => ?_).same name
    refine IsFramed.keeps_overlayRow sound own (fun key ofRow other otherKnown => ?_) state
    cases known.symm.trans otherKnown
    rcases ofRow with rfl | member
    · exact own
    · rw [again key member, List.forall_mem_singleton]
      exact own key member
  · exact (IsFramed.of_keeps touched tabular fun _ => IsFramed.keeps_removeRow sound own).same name

/-- Rows of queues, the first one of two ports. -/
def queueRows : TableRows :=
  ((∅ : TableRows).put "QUEUE" "E0,E4|0" ((∅ : Fields).insert "weight" "1")).put "QUEUE" "E4|1"
    ((∅ : Fields).insert "weight" "2")

/-- A queue that shares its row with another one takes a weight of its own; the other queues stay. -/
theorem besidesRow_queue : ∃ schema table document later,
    Schema.build Schema.queueModules Schema.usualDelimiter = .ok schema ∧
    schema.table? "QUEUE" = some table ∧ table.SplitsBack "E0|0" ∧ ofRows schema queueRows = .ok document ∧
    (overlayRow schema table "E0|0" (.overlay (.setting ((∅ : Fields).insert "weight" "3")))).outcome
      document = (.ok (), later) ∧ later.trees ≠ document.trees ∧
    (document.besidesRow table "E0|0" "QUEUE").map Node.key = [some "E4|0", some "E4|1"] ∧
    later.besidesRow table "E0|0" "QUEUE" = document.besidesRow table "E0|0" "QUEUE" := by
  have built := Schema.build_eq_ofModules
    (show (Schema.build Schema.queueModules Schema.usualDelimiter).isOk by decide +kernel)
  let state : RowState := .overlay (.setting ((∅ : Fields).insert "weight" "3"))
  have facts : ((Schema.ofModules Schema.queueModules).table? "QUEUE").any fun table =>
      decide (table.SplitsBack "E0|0") &&
      (ofRows (Schema.ofModules Schema.queueModules) queueRows).toOption.any fun document =>
        let outcome := (overlayRow (.ofModules Schema.queueModules) table "E0|0" state).outcome document
        decide (outcome.1.toOption = some ()) && decide (outcome.2.trees ≠ document.trees) &&
          decide ((document.besidesRow table "E0|0" "QUEUE").map Node.key =
            [some "E4|0", some "E4|1"]) := by
    decide +kernel
  obtain ⟨table, known, facts⟩ := (Option.any_eq_true _ _).mp facts
  obtain ⟨splitsBack, facts⟩ := Bool.and_eq_true_iff.mp facts
  obtain ⟨document, made, facts⟩ := (Option.any_eq_true _ _).mp facts
  simp only [Bool.and_eq_true, decide_eq_true_iff] at splitsBack facts
  obtain ⟨⟨accepted, changed⟩, keys⟩ := facts
  have translated := Except.toOption_eq_some_iff.mp made
  obtain ⟨overlaid, _⟩ := besidesRow_of_changes built (.translated translated) known splitsBack "QUEUE"
  exact ⟨_, table, document, _, built, known, splitsBack, translated,
    Prod.ext (Except.toOption_eq_some_iff.mp accepted) rfl, changed, keys, overlaid state⟩

end Document

end ConfigVetting
