import ConfigVetting.Document.Rows
import ConfigVetting.Proofs.Document.Places
import ConfigVetting.Proofs.Schema.Tables
import Mathlib.Data.List.Find

/-! # The shape of documents

A document has the shape of a schema if its modules, containers and list instances stand where the
schema puts them, no two of them with the same label. Then the list instance found for a key is the one
at its place (`ConfigVetting.Forest.IsShaped.findInstance?_eq`), and taking it out takes out that place.
-/

namespace ConfigVetting

namespace TableSchema

/-- The labels down to the container of a table. -/
def place (table : TableSchema) : List Label :=
  [.plain table.moduleName .module, .plain table.name .container]

/-- The labels down to a list instance of a table. -/
def instancePlace (table : TableSchema) (key : String) : List Label :=
  [.plain table.moduleName .module, .plain table.name .container,
    .listInstance table.listName key]

end TableSchema

namespace Schema

variable {schema : Schema} {first second : TableSchema}

/-- A table of a schema is known by its name. -/
theorem eq_of_name_eq (firstKnown : schema.table? first.name = some first)
    (secondKnown : schema.table? second.name = some second) (same : first.name = second.name) :
    first = second := by
  rw [same, secondKnown] at firstKnown
  exact (Option.some.inj firstKnown).symm

/-- The places of list instances differ if the tables or the keys do. -/
theorem instancePlace_eq_iff (firstKnown : schema.table? first.name = some first)
    (secondKnown : schema.table? second.name = some second) {key other : String} :
    first.instancePlace key = second.instancePlace other ↔
      first.name = second.name ∧ key = other := by
  constructor
  · intro same
    simp only [TableSchema.instancePlace, List.cons.injEq, Label.plain, Label.listInstance,
      Label.mk.injEq, Option.some.injEq, and_true, true_and] at same
    exact ⟨same.2.1, same.2.2.2⟩
  · rintro ⟨sameName, rfl⟩
    rw [eq_of_name_eq firstKnown secondKnown sameName]

end Schema

namespace Forest

/-- A list instance of a table stands below the container of the table. -/
theorem reach?_instancePlace (forest : Forest Unit) (table : TableSchema) (key : String) :
    forest.reach? (table.instancePlace key) = (forest.reach? table.place).bind
      fun container => container.children.labelled? (.listInstance table.listName key) := by
  unfold TableSchema.instancePlace TableSchema.place
  rw [reach?_cons (by simp), reach?_cons (by simp)]
  cases forest.labelled? (.plain table.moduleName .module) with
  | none => rfl
  | some root => exact reach?_cons (by simp) _ _

/-- What is at the place of a table is a container of its name below its module. -/
theorem exists_root_of_reach?_place {forest : Forest Unit} {table : TableSchema} {container : Tree}
    (there : forest.reach? table.place = some container) :
    ∃ root ∈ forest, root.label = .plain table.moduleName .module ∧
      container ∈ root.children ∧ container.label = .plain table.name .container := by
  rw [TableSchema.place, reach?_cons (by simp)] at there
  obtain ⟨root, top, below⟩ := Option.bind_eq_some_iff.mp there
  obtain ⟨inForest, rootLabel⟩ := label_of_labelled? top
  exact ⟨root, inForest, rootLabel, label_of_labelled? below⟩

/-- All list instances of a table with a key, wherever the table stands. -/
def instancesOf (forest : Forest Unit) (table key : String) : Forest Unit :=
  (((forest.flatMap Node.children).filter (Node.isTable table)).flatMap Node.children).filter
    (Node.hasKey key)

/-- All list instances of a table, wherever the table stands. -/
def instancesIn (forest : Forest Unit) (table : String) : Forest Unit :=
  ((forest.flatMap Node.children).filter (Node.isTable table)).flatMap Node.children

/-- Whether the containers of a forest stand where a schema puts them, in one place each. -/
structure IsPlaced (schema : Schema) (forest : Forest Unit) : Prop where
  orderly : forest.IsOrderlyTo 2
  containers : ∀ first second, (forest.reach? [first, second]).isSome →
    ∃ table, schema.table? table.name = some table ∧ [first, second] = table.place

namespace IsPlaced

variable {schema : Schema} {forest : Forest Unit} {table : TableSchema}

theorem nil : IsPlaced schema [] where
  orderly := isOrderlyTo_nil 2
  containers _ _ there := by cases there

/-- A join has its tables in their places if both sides do. -/
theorem join {first second : Forest Unit} (placed : first.IsPlaced schema)
    (otherPlaced : second.IsPlaced schema) : (first.join second).IsPlaced schema where
  orderly := placed.orderly.join otherPlaced.orderly
  containers root container there := by
    rw [reach?_join placed.orderly otherPlaced.orderly (by simp), isSome_joinFound,
      Bool.or_eq_true] at there
    exact there.elim (placed.containers root container) (otherPlaced.containers root container)

/-- Each container of a placed forest is that of a table, at its place. -/
theorem exists_table (placed : forest.IsPlaced schema) {root container : Tree} (top : root ∈ forest)
    (below : container ∈ root.children) :
    ∃ table, schema.table? table.name = some table ∧ forest.reach? table.place = some container ∧
      root.label = .plain table.moduleName .module ∧
      container.label = .plain table.name .container := by
  have found : forest.reach? [root.label, container.label] = some container := by
    rw [reach?_cons (by simp), placed.orderly.1.labelled?_of_mem top]
    exact (placed.orderly.2 root top).1.labelled?_of_mem below
  obtain ⟨table, known, place⟩ := placed.containers _ _ (by rw [found]; rfl)
  refine ⟨table, known, place ▸ found, ?_⟩
  simpa only [TableSchema.place, List.cons.injEq, and_true] using place

/-- The container of a table stands below its module, and nowhere else. -/
theorem labels_of_isTable (placed : forest.IsPlaced schema)
    (known : schema.table? table.name = some table) {root container : Tree} (top : root ∈ forest)
    (below : container ∈ root.children) (isTable : container.isTable table.name) :
    root.label = .plain table.moduleName .module ∧
      container.label = .plain table.name .container := by
  obtain ⟨other, otherKnown, _, labels⟩ := placed.exists_table top below
  have named : other.name = table.name := by
    simp only [Node.isTable, Node.name, Node.kind, labels.2, Label.plain, Bool.and_eq_true,
      decide_eq_true_iff, true_and] at isTable
    exact isTable
  rwa [Schema.eq_of_name_eq otherKnown known named] at labels

private theorem isTable_iff (placed : forest.IsPlaced schema)
    (known : schema.table? table.name = some table) {root container : Tree} (top : root ∈ forest)
    (below : container ∈ root.children) :
    container.isTable table.name = true ↔ container.label = .plain table.name .container := by
  constructor
  · exact fun isTable => (placed.labels_of_isTable known top below isTable).2
  · intro label
    simp [Node.isTable, Node.kind, Node.name, label, Label.plain]

/-- The container of a table that a placed forest has is at the place of the table. -/
theorem tableContainer?_eq (placed : forest.IsPlaced schema)
    (known : schema.table? table.name = some table) :
    forest.tableContainer? table.name = forest.reach? table.place := by
  unfold tableContainer? tableModule? TableSchema.place
  rw [reach?_cons (by simp)]
  cases found : forest.find? (Node.holdsTable table.name) with
  | none =>
      cases there : forest.labelled? (.plain table.moduleName .module) with
      | none => rfl
      | some root =>
          have outside := List.find?_eq_none.mp found root (label_of_labelled? there).1
          symm
          rw [Option.bind_none, Option.bind_some, reach?, labelled?_eq_none_iff]
          intro inside
          obtain ⟨container, below, label⟩ := List.mem_map.mp inside
          refine outside (List.any_eq_true.mpr ⟨container, below, ?_⟩)
          simp [Node.isTable, Node.kind, Node.name, label, Label.plain]
  | some root =>
      have top := List.mem_of_find?_eq_some found
      have holds : root.holdsTable table.name := List.find?_some found
      obtain ⟨container, below, isTable⟩ := List.any_eq_true.mp holds
      obtain ⟨rootLabel, _⟩ := placed.labels_of_isTable known top below isTable
      rw [← rootLabel, placed.orderly.1.labelled?_of_mem top, Option.bind_some, Option.bind_some,
        reach?, labelled?]
      refine List.find?_congr fun other inside => ?_
      rw [Bool.eq_iff_iff, decide_eq_true_iff]
      exact placed.isTable_iff known top inside

/-- The list instances of a table stand in its container. -/
theorem instancesIn_eq (placed : forest.IsPlaced schema)
    (known : schema.table? table.name = some table) :
    forest.instancesIn table.name = (forest.reach? table.place).elim [] Node.children := by
  unfold instancesIn TableSchema.place
  rw [List.filter_flatMap, List.flatMap_assoc]
  have otherModules : ∀ root ∈ forest, root.label ≠ .plain table.moduleName .module →
      (root.children.filter (Node.isTable table.name)).flatMap Node.children = [] := by
    intro root top apart
    rw [List.filter_eq_nil_iff.mpr fun container below isTable =>
      apart (placed.labels_of_isTable known top below isTable).1]
    rfl
  rw [placed.orderly.1.flatMap_eq otherModules, reach?_cons (by simp)]
  cases top : forest.labelled? (.plain table.moduleName .module) with
  | none => rfl
  | some root =>
      obtain ⟨member, _⟩ := label_of_labelled? top
      rw [Option.toList_some, List.flatMap_singleton, Option.bind_some, reach?,
        (placed.orderly.2 root member).1.filter_eq fun container below =>
          placed.isTable_iff known member below]
      cases root.children.labelled? (.plain table.name .container) with
      | none => rfl
      | some container => rw [Option.toList_some, List.flatMap_singleton, Option.elim_some]

/-- No container of a placed forest has the name of no table. -/
theorem instancesIn_of_unknown (placed : forest.IsPlaced schema) {name : String}
    (unknown : schema.table? name = none) : forest.instancesIn name = [] := by
  refine List.flatMap_eq_nil_iff.mpr fun container member => ?_
  obtain ⟨below, isTable⟩ := List.mem_filter.mp member
  obtain ⟨root, top, inRoot⟩ := List.mem_flatMap.mp below
  obtain ⟨table, known, _, _, label⟩ := placed.exists_table top inRoot
  simp only [Node.isTable, Node.name, Node.kind, label, Label.plain, Bool.and_eq_true,
    decide_eq_true_iff, true_and] at isTable
  rw [isTable, unknown] at known
  cases known

/-- A change below a table keeps the tables in their places. -/
theorem changeAt (placed : forest.IsPlaced schema) {path : List Label} (deep : path.length = 2)
    (change : Forest Unit → Forest Unit) : (forest.changeAt change path).IsPlaced schema where
  orderly := deep ▸ IsOrderlyTo.changeAt (deep ▸ placed.orderly)
  containers root container there := by
    have same : [root, container].length = path.length := deep.symm
    refine placed.containers root container ?_
    rw [reach?_changeAt (deep ▸ placed.orderly) same] at there
    split at there
    · rwa [Option.isSome_map] at there
    · exact there

/-- Taking a list instance out of a table that a placed forest has takes it out at the place of the
table. -/
theorem withoutInstance_eq (placed : forest.IsPlaced schema)
    (known : schema.table? table.name = some table) (there : (forest.reach? table.place).isSome)
    (key : String) :
    forest.withoutInstance table.name key =
      forest.changeAt (fun nodes => nodes.eraseP (Node.hasKey key)) table.place := by
  obtain ⟨container, reached⟩ := Option.isSome_iff_exists.mp there
  obtain ⟨module, top, moduleLabel, containerBelow, containerLabel⟩ :=
    exists_root_of_reach?_place reached
  have chosen : ∀ root ∈ forest, root.holdsTable table.name =
      decide (root.label = .plain table.moduleName .module) := by
    intro root member
    rw [Bool.eq_iff_iff, decide_eq_true_iff]
    constructor
    · intro holds
      obtain ⟨other, otherBelow, isTable⟩ := List.any_eq_true.mp holds
      exact (placed.labels_of_isTable known member otherBelow isTable).1
    · intro label
      have same := placed.orderly.1.labelled?_of_mem member
      rw [label, ← moduleLabel, placed.orderly.1.labelled?_of_mem top] at same
      cases same
      exact List.any_eq_true.mpr ⟨container, containerBelow,
        (placed.isTable_iff known member containerBelow).mpr containerLabel⟩
  have isTable : ∀ root ∈ forest, ∀ other ∈ root.children, other.isTable table.name =
      decide (other.label = .plain table.name .container) := by
    intro root member other below
    rw [Bool.eq_iff_iff, decide_eq_true_iff]
    exact placed.isTable_iff known member below
  exact modifyFirst_congr chosen fun root member _ => congrArg root.withChildren
    (modifyFirst_congr (isTable root member) fun _ _ _ => rfl)

end IsPlaced

/-- Whether all that a forest holds stands where a schema puts it, in one place each. -/
structure IsShaped (schema : Schema) (forest : Forest Unit) : Prop where
  orderly : forest.IsOrderlyTo 3
  containers : ∀ first second, (forest.reach? [first, second]).isSome →
    ∃ table, schema.table? table.name = some table ∧ [first, second] = table.place
  instances : ∀ first second third, (forest.reach? [first, second, third]).isSome →
    ∃ table key, schema.table? table.name = some table ∧
      [first, second, third] = table.instancePlace key

namespace IsShaped

variable {schema : Schema}

theorem nil : IsShaped schema [] where
  orderly := isOrderlyTo_nil 3
  containers _ _ there := by cases there
  instances _ _ _ there := by cases there

/-- A join of two shaped forests is shaped. -/
theorem join {first second : Forest Unit} (shaped : first.IsShaped schema)
    (otherShaped : second.IsShaped schema) : (first.join second).IsShaped schema where
  orderly := shaped.orderly.join otherShaped.orderly
  containers root container there := by
    rw [reach?_join shaped.orderly otherShaped.orderly (by simp), isSome_joinFound,
      Bool.or_eq_true] at there
    exact there.elim (shaped.containers root container) (otherShaped.containers root container)
  instances root container row there := by
    rw [reach?_join shaped.orderly otherShaped.orderly (by simp), isSome_joinFound,
      Bool.or_eq_true] at there
    exact there.elim (shaped.instances root container row)
      (otherShaped.instances root container row)

private theorem prune {forest : Forest Unit} (shaped : forest.IsShaped schema) {path : List Label}
    (short : path.length ≤ 3) : (forest.prune path).IsShaped schema where
  orderly := shaped.orderly.prune short
  containers _ _ there :=
    shaped.containers _ _ (isSome_reach?_of_prune shaped.orderly short there)
  instances _ _ _ there :=
    shaped.instances _ _ _ (isSome_reach?_of_prune shaped.orderly short there)

variable {forest : Forest Unit} {table : TableSchema}

/-- The containers of a shaped forest are placed. -/
theorem isPlaced (shaped : forest.IsShaped schema) : forest.IsPlaced schema where
  orderly := shaped.orderly.mono (by simp)
  containers := shaped.containers

/-- The children of a container are list instances of its table. -/
theorem isInstance_of_mem (shaped : forest.IsShaped schema)
    (known : schema.table? table.name = some table) {root container row : Tree}
    (top : root ∈ forest) (below : container ∈ root.children)
    (isTable : container.isTable table.name) (inside : row ∈ container.children) :
    row.isInstance = true ∧ ∀ key, row.hasKey key = true ↔
      row.label = .listInstance table.listName key := by
  obtain ⟨_, label⟩ := shaped.isPlaced.labels_of_isTable known top below isTable
  have orderly := shaped.orderly.2 root top
  have reached : forest.reach? [root.label, container.label, row.label] = some row := by
    rw [reach?_cons (by simp), shaped.orderly.1.labelled?_of_mem top, Option.bind_some,
      reach?_cons (by simp), orderly.1.labelled?_of_mem below]
    exact (orderly.2 container below).1.labelled?_of_mem inside
  obtain ⟨other, key, otherKnown, place⟩ := shaped.instances _ _ _ (by rw [reached]; rfl)
  simp only [label, TableSchema.instancePlace, List.cons.injEq, Label.plain, Label.mk.injEq,
    and_true] at place
  have same := Schema.eq_of_name_eq known otherKnown place.2.1
  subst same
  have listed : row.isInstance = true := by
    simp [Node.isInstance, Node.kind, place.2.2, Label.listInstance]
  refine ⟨listed, fun other => ?_⟩
  simp [Node.hasKey, listed, Node.key, place.2.2, Label.listInstance]

/-- The container of a table in a shaped forest holds the list instances of the table, one for a key. -/
theorem instances_of_reach?_place (shaped : forest.IsShaped schema)
    (known : schema.table? table.name = some table) {container : Tree}
    (there : forest.reach? table.place = some container) :
    container.children.IsOrderly ∧ ∀ row ∈ container.children, row.isInstance = true ∧
      ∀ key, row.hasKey key = true ↔ row.label = .listInstance table.listName key := by
  obtain ⟨root, top, _, below, label⟩ := exists_root_of_reach?_place there
  have isTable := (shaped.isPlaced.isTable_iff known top below).mpr label
  exact ⟨((shaped.orderly.2 root top).2 container below).1,
    fun row => shaped.isInstance_of_mem known top below isTable⟩

/-- The list instance that a shaped forest has for a key is at its place. -/
theorem findInstance?_eq (shaped : forest.IsShaped schema)
    (known : schema.table? table.name = some table) (key : String) :
    forest.findInstance? table.name key = forest.reach? (table.instancePlace key) := by
  unfold findInstance? listInstances
  rw [reach?_instancePlace, shaped.isPlaced.tableContainer?_eq known]
  cases there : forest.reach? table.place with
  | none => rfl
  | some container =>
      obtain ⟨_, isInstance⟩ := shaped.instances_of_reach?_place known there
      simp only [Option.bind_some, labelled?]
      rw [List.filter_eq_self.mpr fun row inside => (isInstance row inside).1]
      refine List.find?_congr fun row inside => ?_
      rw [Bool.eq_iff_iff, decide_eq_true_iff]
      exact (isInstance row inside).2 key

/-- A shaped forest has no more than one list instance of a table with a key, at its place. -/
theorem instancesOf_eq (shaped : forest.IsShaped schema)
    (known : schema.table? table.name = some table) (key : String) :
    forest.instancesOf table.name key = (forest.reach? (table.instancePlace key)).toList := by
  change (forest.instancesIn table.name).filter (Node.hasKey key) = _
  rw [shaped.isPlaced.instancesIn_eq known, reach?_instancePlace]
  cases there : forest.reach? table.place with
  | none => rfl
  | some container =>
      obtain ⟨orderly, isInstance⟩ := shaped.instances_of_reach?_place known there
      rw [Option.elim_some, Option.bind_some]
      exact orderly.filter_eq fun row inside => (isInstance row inside).2 key

/-- Taking a list instance out of a shaped forest takes out its place. -/
theorem withoutInstance_eq (shaped : forest.IsShaped schema)
    (known : schema.table? table.name = some table) {key : String}
    (there : (forest.findInstance? table.name key).isSome) :
    forest.withoutInstance table.name key = forest.prune (table.instancePlace key) := by
  rw [shaped.findInstance?_eq known, reach?_instancePlace] at there
  have held : (forest.reach? table.place).isSome := Option.isSome_of_isSome_bind there
  rw [shaped.isPlaced.withoutInstance_eq known held]
  refine modifyFirst_congr (fun _ _ => rfl) fun root member _ => congrArg root.withChildren ?_
  refine modifyFirst_congr (fun _ _ => rfl) fun container below own => congrArg container.withChildren ?_
  have isTable := (shaped.isPlaced.isTable_iff known member below).mpr (of_decide_eq_true own)
  refine eraseP_congr fun row inRow => ?_
  rw [Bool.eq_iff_iff, decide_eq_true_iff]
  exact (shaped.isInstance_of_mem known member below isTable inRow).2 key

end IsShaped

end Forest

namespace Document

open Forest

variable {σ : Type} {schema : Schema} {table other : TableSchema}

/-- Whether all that a document holds stands where a schema puts it, in one place each. -/
def IsShaped (schema : Schema) (document : Document) : Prop :=
  document.trees.IsShaped schema

/-- What a document holds at the place of a list instance. -/
def row? (document : Document) (table : TableSchema) (key : String) : Option Tree :=
  document.trees.reach? (table.instancePlace key)

theorem isShaped_empty : empty.IsShaped schema :=
  Forest.IsShaped.nil

theorem row?_empty (table : TableSchema) (key : String) : empty.row? table key = none := rfl

/-- The list instance that a shaped document has for a key is the one at its place. -/
theorem findInstance?_eq_row? {document : Document} (shaped : document.IsShaped schema)
    (known : schema.table? table.name = some table) (key : String) :
    (document.roots.findInstance? table.name key).map Node.bare = document.row? table key := by
  rw [← findInstance?_trees]
  exact Forest.IsShaped.findInstance?_eq shaped known key

/-- All that a document holds as list instances of a table with a key. -/
def instancesOf (document : Document) (table key : String) : Forest Unit :=
  document.trees.instancesOf table key

/-- A shaped document holds no more than one list instance of a table with a key, at its place. -/
theorem instancesOf_eq {document : Document} (shaped : document.IsShaped schema)
    (known : schema.table? table.name = some table) (key : String) :
    document.instancesOf table.name key = (document.row? table key).toList :=
  Forest.IsShaped.instancesOf_eq shaped known key

/-- Merging a shaped forest keeps the shape of a document. -/
theorem IsShaped.merge {document : Document} (shaped : document.IsShaped schema) {source : Forest σ}
    (sourceShaped : source.bare.IsShaped schema) : (document.merge source).IsShaped schema := by
  unfold Document.IsShaped
  rw [trees_merge]
  exact Forest.IsShaped.join shaped sourceShaped

/-- A document after a merge holds at a place what either side holds there. -/
theorem row?_merge {document : Document} (shaped : document.IsShaped schema) {source : Forest σ}
    (sourceShaped : source.bare.IsShaped schema) (table : TableSchema) (key : String) :
    (document.merge source).row? table key =
      joinFound (document.row? table key) (source.bare.reach? (table.instancePlace key)) := by
  unfold row?
  rw [trees_merge]
  exact reach?_join shaped.orderly sourceShaped.orderly (by simp [TableSchema.instancePlace])

theorem IsShaped.compactIfSparse {document : Document} (shaped : document.IsShaped schema) :
    document.compactIfSparse.IsShaped schema := by
  unfold Document.IsShaped
  rwa [trees_compactIfSparse]

theorem row?_compactIfSparse (document : Document) (table : TableSchema) (key : String) :
    document.compactIfSparse.row? table key = document.row? table key := by
  unfold row?
  rw [trees_compactIfSparse]

/-- Taking out an instance keeps the shape of a document. -/
theorem IsShaped.removeInstance {document : Document} (shaped : document.IsShaped schema)
    (known : schema.table? table.name = some table) (key : String) :
    (document.removeInstance table.name key).IsShaped schema := by
  unfold Document.IsShaped
  rw [trees_removeInstance]
  by_cases there : (document.trees.findInstance? table.name key).isSome
  · rw [if_pos there, Forest.IsShaped.withoutInstance_eq shaped known there]
    exact Forest.IsShaped.prune shaped (by simp [TableSchema.instancePlace])
  · rwa [if_neg there]

/-- Taking out a list instance leaves all others. -/
theorem row?_removeInstance {document : Document} (shaped : document.IsShaped schema)
    (known : schema.table? table.name = some table)
    (otherKnown : schema.table? other.name = some other) (key otherKey : String) :
    (document.removeInstance table.name key).row? other otherKey =
      if table.name = other.name ∧ key = otherKey then none else document.row? other otherKey := by
  unfold row?
  rw [trees_removeInstance]
  simp only [← Schema.instancePlace_eq_iff known otherKnown]
  by_cases there : (document.trees.findInstance? table.name key).isSome
  · rw [if_pos there, Forest.IsShaped.withoutInstance_eq shaped known there]
    exact reach?_prune shaped.orderly (by simp [TableSchema.instancePlace]) rfl
  · rw [if_neg there]
    by_cases own : table.instancePlace key = other.instancePlace otherKey
    · rw [if_pos own, ← own, ← Forest.IsShaped.findInstance?_eq shaped known]
      simpa using there
    · rw [if_neg own]

end Document

end ConfigVetting
