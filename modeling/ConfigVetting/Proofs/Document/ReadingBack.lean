import ConfigVetting.Proofs.Document.Contents
import ConfigVetting.Proofs.Document.Settling

/-! # Documents read back as rows

Reading the list instances of a table one after another leaves the row of the last one of each key
(`ConfigVetting.TableSchema.getElem?_readRows`). A document whose containers all hold list instances
that read back to given rows reads back to these (`ConfigVetting.Forest.toRows_eq_ok`).
-/

namespace ConfigVetting

namespace TableSchema

variable {table : TableSchema}

/-- Rows with those of some list instances added. -/
def readRows (table : TableSchema) (nodes : Forest Unit) (rows : KeyedRows) : KeyedRows :=
  nodes.foldl (fun rows node => rows.insert (node.key.getD "") (table.instanceFields node)) rows

/-- A row that is read back is that of the last list instance with its key. -/
theorem getElem?_readRows (table : TableSchema) (nodes : Forest Unit) (rows : KeyedRows)
    (key : String) :
    (table.readRows nodes rows)[key]? =
      (((nodes.filter fun node => node.key.getD "" = key).map table.instanceFields).getLast?).or
        rows[key]? := by
  have each : ∀ (rows : KeyedRows) (node : Tree),
      (rows.insert (node.key.getD "") (table.instanceFields node))[key]? =
        (if node.key.getD "" = key then some (table.instanceFields node) else none).or rows[key]? := by
    intro rows node
    rw [ByName.getElem?_insert]
    split <;> rfl
  rw [readRows, ByName.getElem?_foldl_of_step each, ← List.filterMap_eq_map, List.filterMap_filter]
  simp only [decide_eq_true_eq, Function.comp_apply]

end TableSchema

namespace Forest

variable {σ : Type} {schema : Schema} {table : TableSchema}

/-- List instances with keys are read back one after another. -/
theorem containerRows_eq {container : Tree} (keyed : ∀ node ∈ container.children, node.key.isSome)
    (rows : KeyedRows) :
    containerRows table container rows = .ok (table.readRows container.children rows) := by
  unfold containerRows TableSchema.readRows
  generalize container.children = nodes at keyed
  induction nodes generalizing rows with
  | nil => rfl
  | cons node nodes ih =>
      rw [List.forall_mem_cons] at keyed
      obtain ⟨key, own⟩ := Option.isSome_iff_exists.mp keyed.1
      rw [List.foldlM_cons, List.foldl_cons, ← ih _ keyed.2]
      simp only [own, Option.getD_some]
      rfl

/-- Reading rows depends on the bare trees alone. -/
theorem containerRows_bare (container : Node σ) (rows : KeyedRows) :
    containerRows table container.bare rows = containerRows table container rows := by
  unfold containerRows
  simp only [Node.children_bare, Forest.bare, List.foldlM_map, Node.key_bare,
    TableSchema.instanceFields_bare]

/-- The rows read off a forest do not depend on its slots. -/
theorem toRows_bare (forest : Forest σ) : forest.bare.toRows schema = forest.toRows schema := by
  unfold toRows
  have children : forest.bare.flatMap Node.children = (forest.flatMap Node.children).map Node.bare := by
    rw [bare, List.flatMap_map, List.map_flatMap]
    simp only [Node.children_bare, bare]
  rw [children, List.foldlM_map]
  simp only [Node.name_bare, containerRows_bare]

/-- Rows with those of a container added. -/
def addRows (schema : Schema) (rows : TableRows) (container : Node σ) : Except Rejection TableRows :=
  match schema.table? container.name with
  | none => .error (.internal s!"Document holds unknown table '{container.name}'")
  | some table => do
    let keyed ← containerRows table container (rows.keyed table.name)
    return rows.insert table.name keyed

/-- Rows are read table by table, from the children of the roots. -/
theorem toRows_eq (forest : Forest σ) :
    forest.toRows schema = (forest.flatMap Node.children).foldlM (addRows schema) ∅ := rfl

/-- Whether a container is that of a table with list instances that read back to the rows of the table
in a source, also when these are there already. -/
def ReadsAs (schema : Schema) (source : TableRows) (container : Tree) : Prop :=
  ∃ table keyed, schema.table? container.name = some table ∧ table.name = container.name ∧
    source[table.name]? = some keyed ∧ (∀ node ∈ container.children, node.key.isSome) ∧
    ∀ rows, rows = ∅ ∨ rows = keyed → table.readRows container.children rows = keyed

/-- Reading the container of a table leaves the rows of the table. -/
theorem ReadsAs.addRows_eq {source start : TableRows} {container : Tree}
    (reads : ReadsAs schema source container)
    (before : start[container.name]? = none ∨ start[container.name]? = source[container.name]?) :
    ∃ keyed, source[container.name]? = some keyed ∧
      addRows schema start container = .ok (start.insert container.name keyed) := by
  obtain ⟨table, keyed, known, named, held, hasKeys, read⟩ := reads
  rw [named] at held
  refine ⟨keyed, held, ?_⟩
  have rows : start.keyed table.name = ∅ ∨ start.keyed table.name = keyed := by
    unfold TableRows.keyed
    rw [named]
    rcases before with none | same
    · exact Or.inl (by rw [none]; rfl)
    · exact Or.inr (by rw [same, held]; rfl)
  unfold addRows
  rw [known, ← named]
  simp only [containerRows_eq hasKeys, read _ rows]
  rfl

/-- Containers that read as the tables of a source leave the rows of these. -/
theorem exists_foldlM_addRows {source : TableRows} {containers : Forest Unit}
    (each : ∀ container ∈ containers, ReadsAs schema source container) {start : TableRows}
    (before : ∀ name : String, start[name]? = none ∨ start[name]? = source[name]?) :
    ∃ result, containers.foldlM (addRows schema) start = .ok result ∧
      ∀ name : String, result[name]? =
        if ∃ container ∈ containers, container.name = name then source[name]? else start[name]? := by
  induction containers generalizing start with
  | nil => exact ⟨start, rfl, fun name => by simp⟩
  | cons container containers ih =>
      rw [List.forall_mem_cons] at each
      obtain ⟨keyed, held, added⟩ := each.1.addRows_eq (before container.name)
      have later : ∀ name : String, (start.insert container.name keyed)[name]? = none ∨
          (start.insert container.name keyed)[name]? = source[name]? := by
        intro name
        rw [ByName.getElem?_insert]
        by_cases own : container.name = name
        · rw [if_pos own, ← own, held]
          exact Or.inr rfl
        · rw [if_neg own]
          exact before name
      obtain ⟨result, made, found⟩ := ih each.2 later
      refine ⟨result, ?_, fun name => ?_⟩
      · rw [List.foldlM_cons, added]
        exact made
      · rw [found, ByName.getElem?_insert]
        by_cases own : container.name = name
        · subst own
          simp only [List.exists_mem_cons_iff, true_or, ↓reduceIte, held, ite_self]
        · rw [if_neg own]
          simp only [List.exists_mem_cons_iff, own, false_or]

/-- A forest with a container for each table of a source that reads as the table is read back as the
source. -/
theorem toRows_eq_ok {source : TableRows} {forest : Forest Unit}
    (each : ∀ container ∈ forest.flatMap Node.children, ReadsAs schema source container)
    (all : ∀ (name : String) keyed, source[name]? = some keyed →
      ∃ container ∈ forest.flatMap Node.children, container.name = name) :
    forest.toRows schema = .ok source := by
  have unread : ∀ name : String, (∅ : TableRows)[name]? = none ∨
      (∅ : TableRows)[name]? = source[name]? := fun _ => Or.inl rfl
  obtain ⟨result, made, found⟩ := exists_foldlM_addRows each unread
  have same : result = source := by
    refine Std.ExtTreeMap.ext_getElem? fun name => ?_
    rw [found]
    cases held : source[name]? with
    | none => split <;> rfl
    | some keyed => rw [if_pos (all name keyed held)]
  rw [toRows_eq, made, same]

/-- The containers of a shaped forest are those of tables, at their places. -/
theorem IsShaped.exists_table {forest : Forest Unit} (shaped : forest.IsShaped schema)
    {container : Tree} (member : container ∈ forest.flatMap Node.children) :
    ∃ table, schema.table? table.name = some table ∧ forest.reach? table.place = some container ∧
      container.label = .plain table.name .container ∧ container.children.IsOrderly ∧
      ∀ node ∈ container.children, ∃ key, node.label = .listInstance table.listName key := by
  obtain ⟨root, top, below⟩ := List.mem_flatMap.mp member
  have orderly := shaped.orderly.2 root top
  obtain ⟨table, known, found, _, label⟩ := shaped.isPlaced.exists_table top below
  refine ⟨table, known, found, label, (orderly.2 container below).1, fun node inside => ?_⟩
  have reached : forest.reach? [root.label, container.label, node.label] = some node := by
    rw [reach?_cons (by simp), shaped.orderly.1.labelled?_of_mem top, Option.bind_some,
      reach?_cons (by simp), orderly.1.labelled?_of_mem below]
    exact (orderly.2 container below).1.labelled?_of_mem inside
  obtain ⟨other, key, otherKnown, instancePlace⟩ := shaped.instances _ _ _ (by rw [reached]; rfl)
  obtain ⟨_, rest⟩ := List.cons.inj instancePlace
  obtain ⟨otherLabel, rest⟩ := List.cons.inj rest
  have named : other.name = table.name := congrArg Label.name (otherLabel.symm.trans label)
  cases Schema.eq_of_name_eq otherKnown known named
  exact ⟨key, (List.cons.inj rest).1⟩

/-- A shaped forest has the container of a table if one of its containers has the name of the table. -/
theorem IsShaped.isSome_reach?_place_iff {forest : Forest Unit} (shaped : forest.IsShaped schema)
    (known : schema.table? table.name = some table) :
    (forest.reach? table.place).isSome ↔
      ∃ container ∈ forest.flatMap Node.children, container.name = table.name := by
  constructor
  · intro there
    obtain ⟨container, found⟩ := Option.isSome_iff_exists.mp there
    obtain ⟨root, top, _, below, label⟩ := exists_root_of_reach?_place found
    exact ⟨container, List.mem_flatMap.mpr ⟨root, top, below⟩, congrArg Label.name label⟩
  · rintro ⟨container, member, named⟩
    obtain ⟨other, otherKnown, found, label, _⟩ := shaped.exists_table member
    have sameName : other.name = table.name := (congrArg Label.name label).symm.trans named
    cases Schema.eq_of_name_eq otherKnown known sameName
    rw [found]
    rfl

/-- A shaped forest with a container for each table of a source, and at the place of each row a list
instance that reads as the row, is read back as the source. -/
theorem IsShaped.toRows_eq_ok {forest : Forest Unit} (shaped : forest.IsShaped schema)
    {source : TableRows}
    (known : ∀ (name : String) keyed, source[name]? = some keyed →
      ∃ table : TableSchema, table.name = name ∧ schema.table? name = some table)
    (containers : ∀ table, schema.table? table.name = some table →
      ((forest.reach? table.place).isSome ↔ (source[table.name]?).isSome))
    (rows : ∀ table, schema.table? table.name = some table → ∀ key,
      (forest.reach? (table.instancePlace key)).map table.instanceFields =
        (source.keyed table.name)[key]?) :
    forest.toRows schema = .ok source := by
  refine Forest.toRows_eq_ok (fun container member => ?_) fun name keyed held => ?_
  · obtain ⟨table, tableKnown, found, label, orderly, labels⟩ := shaped.exists_table member
    obtain ⟨keyed, held⟩ := Option.isSome_iff_exists.mp
      ((containers table tableKnown).mp (by rw [found]; rfl))
    have named : container.name = table.name := congrArg Label.name label
    refine ⟨table, keyed, named ▸ tableKnown, named.symm, held, fun node inside => ?_,
      fun start before => ?_⟩
    · obtain ⟨key, own⟩ := labels node inside
      rw [Node.key, own]
      rfl
    · refine Std.ExtTreeMap.ext_getElem? fun key => ?_
      have own : ∀ node ∈ container.children, decide (node.key.getD "" = key) = true ↔
          node.label = .listInstance table.listName key := by
        intro node inside
        obtain ⟨other, label⟩ := labels node inside
        rw [decide_eq_true_iff, Node.key, label]
        exact ⟨fun same => congrArg _ same, fun same => Option.some.inj (congrArg Label.key same)⟩
      have row := rows table tableKnown key
      rw [reach?_instancePlace, found, Option.bind_some, TableRows.keyed, held, Option.getD_some] at row
      rw [TableSchema.getElem?_readRows, orderly.filter_eq own, ← row]
      cases absent : container.children.labelled? (.listInstance table.listName key) with
      | some node => rfl
      | none =>
          rw [absent] at row
          rcases before with rfl | rfl
          · rfl
          · exact row.symm
  · obtain ⟨table, rfl, tableKnown⟩ := known name keyed held
    exact (shaped.isSome_reach?_place_iff tableKnown).mp
      ((containers table tableKnown).mpr (by rw [held]; rfl))

/-- The forest of rows has the containers of their tables. -/
theorem isSome_reach?_place_of_ofRows (sound : schema.IsSound) {rows : TableRows} {forest : Forest Unit}
    (made : ofRows schema rows = .ok forest) (shaped : forest.IsShaped schema)
    (known : schema.table? table.name = some table) :
    (forest.reach? table.place).isSome ↔ (rows[table.name]?).isSome := by
  obtain ⟨each, containers⟩ := mem_containers_of_foldlM made
  rw [shaped.isSome_reach?_place_iff known]
  constructor
  · rintro ⟨container, member, named⟩
    obtain ⟨⟨name, keyed⟩, entry, other, nodes, otherKnown, _, rfl⟩ :=
      ((containers container).mp member).resolve_left (by simp)
    have own : table.name = name := named.symm.trans (sound name other otherKnown).1
    rw [own, Std.ExtTreeMap.mem_toList_iff_getElem?_eq_some.mp entry]
    rfl
  · intro there
    obtain ⟨keyed, held⟩ := Option.isSome_iff_exists.mp there
    have entry := Std.ExtTreeMap.mem_toList_iff_getElem?_eq_some.mpr held
    obtain ⟨container, other, nodes, otherKnown, translated, rfl⟩ := each _ entry
    exact ⟨_, (containers _).mpr (Or.inr ⟨_, entry, other, nodes, otherKnown, translated, rfl⟩),
      (sound _ other otherKnown).1⟩

end Forest

/-- What a document is read back as depends on what it says alone. -/
theorem Document.toRows_trees (document : Document) (schema : Schema) :
    document.toRows schema = document.trees.toRows schema :=
  (Forest.toRows_bare document.roots).symm

end ConfigVetting
