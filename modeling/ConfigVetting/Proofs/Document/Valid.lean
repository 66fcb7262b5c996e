import ConfigVetting.Proofs.Document.Neighbours
import ConfigVetting.Proofs.Document.Repetition

/-! # Valid subjects

A list instance is valid if all of its leaves are declared, their values are admitted by their types and
patterns, leafrefs lead to values that occur, and, where it is created, mandatory leaves have values
(`ConfigVetting.TableSchema.IsValid`). A subject of rows is accepted for a create or an update exactly if all
of its list instances are valid (`ConfigVetting.Document.accepts_iff_isValid`). Values occur where a look-up
finds them; that is wherever they stand, where each table stands in one place
(`ConfigVetting.Forest.IsTabular.has_iff_holds`), as it does in documents that are held
(`ConfigVetting.Document.ofSchema_eq_ok_iff_of_isTabular`).
-/

namespace ConfigVetting

open Check

variable {σ : Type}

/-- Whether a text is of a type: any text, a truth value, a number within the bounds or one of some
texts. -/
def LeafType.Admits : LeafType → String → Prop
  | .string, _ => True
  | .int min max, value => ∃ number, Text.int64? value = some number ∧
      (∀ least ∈ min, least ≤ number) ∧ ∀ greatest ∈ max, number ≤ greatest
  | .bool, value => value = "true" ∨ value = "false"
  | .enum choices, value => value ∈ choices

/-- Whether some list instance that a forest has for a table has a value in a leaf. -/
def Forest.Has (forest : Forest σ) (table field value : String) : Prop :=
  ∃ node ∈ forest.listInstances table, value ∈ node.leafValues field

/-- Whether a list instance is valid for an operation, where leafrefs lead to the values that occur. -/
structure TableSchema.IsValid (table : TableSchema) (occurs : LeafrefTarget → String → Prop)
    (operation : Operation) (node : Node σ) : Prop where
  /-- Each leaf and leaf-list is a component of the key or declared. -/
  declared : ∀ child ∈ node.children, child.kind = .leaf ∨ child.kind = .leafList →
    table.isKey child.name = true ∨ (table.leaf? child.name).isSome = true
  typed : ∀ field leaf value, table.leaf? field = some leaf → table.Gives node field value →
    leaf.decl.type.Admits value
  matched : ∀ field leaf value, table.leaf? field = some leaf → table.Gives node field value →
    ∀ pattern ∈ leaf.pattern, pattern.accepts value = true
  referred : ∀ field leaf value, table.leaf? field = some leaf → table.Gives node field value →
    leaf.targets ≠ [] → value ≠ "" → ∃ target ∈ leaf.targets, occurs target value
  complete : operation = .create → ∀ field leaf, table.leaf? field = some leaf →
    leaf.decl.mandatory = true → ∃ value, table.Gives node field value

private theorem Forest.containsValue_iff {forest : Forest σ} {table field value : String} :
    forest.containsValue table field value = true ↔ forest.bare.Has table field value := by
  rw [← containsValue_bare]
  simp [containsValue, Has]

/-- Where each table stands in one place, with nothing but list instances, its list instances that are found
are all that there are. -/
theorem Forest.IsTabular.has_iff_holds {schema : Schema} {forest : Forest Unit}
    (tabular : forest.IsTabular schema) {name field value : String} :
    forest.Has name field value ↔ forest.Holds name field value := by
  constructor
  · rintro ⟨node, inside, held⟩
    obtain ⟨root, top, container, below, isTable, member⟩ := exists_container_of_mem inside
    exact ⟨root, top, container, below, isTable, node, member, held⟩
  · rintro ⟨root, top, container, below, isTable, node, member, held⟩
    -- The container is that of a table of the schema, so the look-up leads to it.
    obtain ⟨table, known, _, _, label⟩ := tabular.placed.exists_table top below
    obtain rfl : table.name = name :=
      (congrArg Label.name label).symm.trans (of_decide_eq_true (Bool.and_eq_true_iff.mp isTable).2)
    refine ⟨node, ?_, held⟩
    have instances : ∀ node ∈ forest.instancesIn table.name, node.isInstance = true := by
      intro node inside
      obtain ⟨key, label⟩ := tabular.instances table known node inside
      rw [Node.isInstance, Node.kind, label]
      rfl
    rw [tabular.placed.listInstances_eq known, List.filter_eq_self.mpr instances]
    exact List.mem_flatMap.mpr ⟨container, List.mem_filter.mpr
      ⟨List.mem_flatMap.mpr ⟨root, top, below⟩, isTable⟩, member⟩

namespace TableSchema

variable {table : TableSchema} {fields : Fields} {components : List String}

private theorem isValid_bare {occurs : LeafrefTarget → String → Prop} {operation : Operation}
    {node : Node σ} :
    table.IsValid occurs operation node.bare ↔ table.IsValid occurs operation node := by
  have children : (∀ child ∈ node.bare.children, child.kind = .leaf ∨ child.kind = .leafList →
      table.isKey child.name = true ∨ (table.leaf? child.name).isSome = true) ↔
        ∀ child ∈ node.children, child.kind = .leaf ∨ child.kind = .leafList →
          table.isKey child.name = true ∨ (table.leaf? child.name).isSome = true := by
    rw [Node.children_bare, Forest.bare, List.forall_mem_map]
    simp only [Node.kind_bare, Node.name_bare]
  constructor
  · rintro ⟨declared, typed, matched, referred, complete⟩
    simp only [gives_bare] at typed matched referred complete
    exact ⟨children.mp declared, typed, matched, referred, complete⟩
  · rintro ⟨declared, typed, matched, referred, complete⟩
    have bare : ∀ field value, table.Gives node field value ↔ table.Gives node.bare field value :=
      fun _ _ => gives_bare.symm
    simp only [bare] at typed matched referred complete
    exact ⟨children.mpr declared, typed, matched, referred, complete⟩

/-- Below a list instance of a row stand leaves, members of leaf-lists and entries. -/
theorem kind_of_mem_instanceNode {child : Tree}
    (inside : child ∈ (table.instanceNode fields components).children) :
    child.kind = .list ∨ child.kind = .leaf ∨ child.kind = .leafList := by
  rcases List.mem_append.mp inside with inKey | inFields
  · obtain ⟨_, _, rfl⟩ := List.mem_map.mp inKey
    exact Or.inr (Or.inl rfl)
  · obtain ⟨_, _, below⟩ := List.mem_flatMap.mp inFields
    exact becomes_fieldNodes.kind_eq below

end TableSchema

namespace Check.Place

variable {place : Place} {values : Values} {holds : LeafrefTarget → String → Bool}

private theorem checkType_eq_ok_iff {leaf : LeafDecl} {value : String} :
    place.checkType leaf value = .ok () ↔ leaf.type.Admits value := by
  unfold checkType LeafType.Admits
  cases leaf.type with
  | string => simp
  | bool =>
      simp only
      by_cases truth : value = "true" ∨ value = "false"
      · rw [if_pos (by simpa using truth)]
        exact iff_of_true rfl truth
      · rw [if_neg (by simpa using truth)]
        exact iff_of_false nofun truth
  | int min max =>
      simp only
      cases Text.int64? value with
      | none => simp
      | some number =>
          simp only [Option.some.injEq, exists_eq_left']
          have outside : ((min.any fun bound => decide (number < bound)) ||
              max.any fun bound => decide (bound < number)) = true ↔
                ¬ ((∀ least ∈ min, least ≤ number) ∧ ∀ greatest ∈ max, number ≤ greatest) := by
            cases min <;> cases max <;> simp
            omega
          by_cases within : (∀ least ∈ min, least ≤ number) ∧ ∀ greatest ∈ max, number ≤ greatest
          · rw [if_neg fun out => outside.mp out within]
            exact iff_of_true rfl within
          · rw [if_pos (outside.mpr within)]
            exact iff_of_false nofun within
  | enum choices =>
      simp only
      by_cases listed : value ∈ choices
      · rw [if_pos (List.contains_iff_mem.mpr listed)]
        exact iff_of_true rfl listed
      · rw [if_neg fun inside => listed (List.contains_iff_mem.mp inside)]
        exact iff_of_false nofun listed

private theorem checkPattern_eq_ok_iff {leaf : LeafSchema} {value : String} :
    place.checkPattern leaf value = .ok () ↔ ∀ pattern ∈ leaf.pattern, pattern.accepts value = true := by
  unfold checkPattern
  cases leaf.pattern with
  | none => simp
  | some pattern => by_cases accepts : pattern.accepts value = true <;> simp [accepts]

/-- A list instance is complete if a value was collected for each of its mandatory leaves. -/
theorem checkComplete_eq_ok_iff (named : LeafSchema.AreNamed place.table.leaves) :
    place.checkComplete values = .ok () ↔ ∀ field leaf, place.table.leaf? field = some leaf →
      leaf.decl.mandatory = true → field ∈ values := by
  constructor
  · intro complete field leaf declared mandatory
    exact mem_of_checkComplete complete declared (named field leaf declared).1 mandatory
  · intro all
    refine Except.forM_eq_ok_iff.mpr fun leaf member => if_neg ?_
    obtain ⟨field, declared⟩ := ByName.mem_values_iff.mp member
    rw [(named field leaf declared).1]
    simpa using all field leaf declared

/-- The values that were collected of a list instance pass exactly if all that it gives are admitted. -/
theorem checkValues_iff_of_values {node : Node σ} (made : place.values node = .ok values)
    (valued : ∀ child ∈ node.children, child.kind = .leaf ∨ child.kind = .leafList → child.value ≠ none) :
    place.checkValues holds values = .ok () ↔ ∀ field leaf, place.table.leaf? field = some leaf →
      ∀ value, place.table.Gives node field value → leaf.decl.type.Admits value ∧
        (∀ pattern ∈ leaf.pattern, pattern.accepts value = true) ∧
        (leaf.targets ≠ [] → value ≠ "" → ∃ target ∈ leaf.targets, holds target value = true) := by
  rw [checkValues_eq_ok_iff]
  simp only [checkType_eq_ok_iff, checkPattern_eq_ok_iff, checkLeafref_eq_ok_iff]
  refine forall₃_congr fun field leaf _ => forall_congr' fun value => ?_
  rw [mem_collected_iff made fun child inside isLeaf absent => absurd absent (valued child inside isLeaf)]

/-- The values that were collected of a list instance are complete exactly if it gives one to each mandatory
leaf. -/
theorem checkComplete_iff_of_values (named : LeafSchema.AreNamed place.table.leaves) {node : Node σ}
    (made : place.values node = .ok values)
    (valued : ∀ child ∈ node.children, child.kind = .leaf ∨ child.kind = .leafList → child.value ≠ none) :
    place.checkComplete values = .ok () ↔ ∀ field leaf, place.table.leaf? field = some leaf →
      leaf.decl.mandatory = true → ∃ value, place.table.Gives node field value := by
  rw [checkComplete_eq_ok_iff named]
  exact forall₄_congr fun field _ _ _ => mem_values_iff made valued

/-- The values of a list instance of leaves and entries are collected exactly if its leaves are declared, where
each leaf is the first node of its name. -/
theorem exists_values_iff_declared {node : Node σ} (first : node.children.LeavesFirst)
    (kinds : ∀ child ∈ node.children, child.kind = .list ∨ child.kind = .leaf ∨ child.kind = .leafList) :
    (∃ values, place.values node = .ok values) ↔ ∀ child ∈ node.children,
      child.kind = .leaf ∨ child.kind = .leafList →
        place.table.isKey child.name = true ∨ (place.table.leaf? child.name).isSome = true := by
  rw [exists_values_iff first]
  refine forall₂_congr fun child inside => ?_
  rcases kinds child inside with isEntry | isLeaf
  · exact iff_of_true (Or.inl isEntry) fun isLeaf => by simp [isEntry] at isLeaf
  · have noEntry : child.kind ≠ .list := fun isEntry => by simp [isEntry] at isLeaf
    rw [Allows, or_iff_right noEntry, and_iff_right isLeaf]
    exact (imp_iff_right isLeaf).symm

/-- A list instance passes for a create or an update exactly if its values are collected, pass and, for a
create, are complete. -/
theorem check_iff_of_acts {operation : Operation} (acts : operation = .create ∨ operation = .update)
    {node : Node σ} :
    place.check holds operation node = .ok () ↔ ∃ values, place.values node = .ok values ∧
      place.checkValues holds values = .ok () ∧
        (operation = .create → place.checkComplete values = .ok ()) := by
  unfold check
  rw [Except.bind_eq_ok_iff]
  refine exists_congr fun values => and_congr_right fun _ => ?_
  rcases acts with rfl | rfl
  · rw [imp_iff_right rfl]
    change (place.checkValues holds values >>= fun _ => place.checkComplete values) = .ok () ↔ _
    rw [Except.bind_eq_ok_iff]
    constructor
    · rintro ⟨_, passed, complete⟩
      exact ⟨passed, complete⟩
    · rintro ⟨passed, complete⟩
      exact ⟨(), passed, complete⟩
  · exact (and_iff_left fun creates => by cases creates).symm

/-- A list instance of leaves with values and entries, in which each leaf is the first node of its name,
passes exactly if it is valid. -/
theorem check_eq_ok_iff (named : LeafSchema.AreNamed place.table.leaves) {operation : Operation}
    (acts : operation = .create ∨ operation = .update) {node : Node σ}
    (first : node.children.LeavesFirst)
    (kinds : ∀ child ∈ node.children, child.kind = .list ∨ child.kind = .leaf ∨ child.kind = .leafList)
    (valued : ∀ child ∈ node.children, child.kind = .leaf ∨ child.kind = .leafList → child.value ≠ none) :
    place.check holds operation node = .ok () ↔
      place.table.IsValid (fun target value => holds target value = true) operation node := by
  rw [check_iff_of_acts acts]
  constructor
  · rintro ⟨values, made, passed, complete⟩
    have each := (checkValues_iff_of_values made valued).mp passed
    exact {
      declared := (exists_values_iff_declared first kinds).mp ⟨values, made⟩
      typed := fun field leaf value known given => (each field leaf known value given).1
      matched := fun field leaf value known given => (each field leaf known value given).2.1
      referred := fun field leaf value known given => (each field leaf known value given).2.2
      complete := fun creates => (checkComplete_iff_of_values named made valued).mp (complete creates) }
  · intro valid
    obtain ⟨values, made⟩ := (exists_values_iff_declared first kinds).mpr valid.declared
    refine ⟨values, made, (checkValues_iff_of_values made valued).mpr fun field leaf known value given => ?_,
      fun creates => (checkComplete_iff_of_values named made valued).mpr (valid.complete creates)⟩
    exact ⟨valid.typed field leaf value known given, valid.matched field leaf value known given,
      valid.referred field leaf value known given⟩

end Check.Place

namespace Document

variable {modules : List ModuleDecl} {delimiter : String} {schema : Schema} {rows : TableRows}
  {subject : Document}

/-- Whether a value occurs in the leaf of a target, in a subject or in the document that it depends on. -/
def Supplies (subject : Document) (dependent : Option Document) (target : LeafrefTarget) (value : String) :
    Prop :=
  subject.trees.Has target.table target.leaf value ∨
    ∃ data ∈ dependent, data.trees.Has target.table target.leaf value

private theorem holdsIn_iff {dependent : Option Document} {target : LeafrefTarget} {value : String} :
    holdsIn subject.roots (dependent.map roots) target value = true ↔
      subject.Supplies dependent target value := by
  unfold holdsIn Supplies
  rw [Bool.or_eq_true, Forest.containsValue_iff]
  refine or_congr_right ?_
  cases dependent with
  | none => simp
  | some data => simp [Forest.containsValue_iff, trees]

/-- A list instance of a subject of rows passes exactly if it is valid. -/
theorem check_node_eq_ok_iff (sound : schema.IsSound) (translated : ofRows schema rows = .ok subject)
    {table : TableSchema} (known : schema.table? table.name = some table) {node : Node Nat}
    (inside : node.bare ∈ subject.trees.instancesIn table.name) (dependent : Option Document)
    {operation : Operation} (acts : operation = .create ∨ operation = .update) :
    (Place.ofNode table node).check (holdsIn subject.roots (dependent.map roots)) operation node = .ok () ↔
      table.IsValid (subject.Supplies dependent) operation node.bare := by
  obtain ⟨_, fields, components, _, count, same⟩ :=
    exists_row_of_mem_instancesIn sound translated known inside
  have tableSound := (sound _ table known).2
  have children : node.children.bare = (table.instanceNode fields components).children := by
    rw [← Node.children_bare, same]
  have below : ∀ child ∈ node.children, child.bare ∈ (table.instanceNode fields components).children :=
    fun child member => children ▸ List.mem_map_of_mem member
  have supplies : (fun target value => holdsIn subject.roots (dependent.map roots) target value = true) =
      subject.Supplies dependent := funext₂ fun _ _ => propext holdsIn_iff
  rw [TableSchema.isValid_bare, ← supplies]
  refine Place.check_eq_ok_iff tableSound.leaves acts ?_ (fun child member => ?_)
    fun child member isLeaf => ?_
  · rw [← Forest.leavesFirst_bare, children]
    exact TableSchema.leavesFirst_instanceNode tableSound.apart count
  · rw [← child.kind_bare]
    exact TableSchema.kind_of_mem_instanceNode (below child member)
  · rw [← child.kind_bare] at isLeaf
    rw [← child.value_bare]
    exact TableSchema.value_ne_none_of_mem_instanceNode (below child member) isLeaf

/-- The processor accepts a subject of rows for a create or an update exactly if all of its list instances
are valid. -/
theorem ofSchema_eq_ok_iff (sound : schema.IsSound) (translated : ofRows schema rows = .ok subject)
    (dependent : Option Document) {operation : Operation}
    (acts : operation = .create ∨ operation = .update) :
    Processor.ofSchema schema subject dependent operation = .ok () ↔
      ∀ table, schema.table? table.name = some table → ∀ node ∈ subject.trees.instancesIn table.name,
        table.IsValid (subject.Supplies dependent) operation node := by
  obtain ⟨placed, _⟩ := gathers_ofRows sound translated
  have runs : operation ≠ .none := by rcases acts with rfl | rfl <;> nofun
  unfold Processor.ofSchema Schema.check
  rw [if_neg runs, Except.forM_eq_ok_iff]
  constructor
  · intro accepted table known tree inside
    obtain ⟨container, below, named, node, member, rfl⟩ := placed.mem_instancesIn_bare_iff.mp inside
    have own := accepted container below
    unfold checkContainer at own
    simp only [named, known] at own
    exact (check_node_eq_ok_iff sound translated known inside dependent acts).mp
      (Except.forM_eq_ok_iff.mp own node member)
  · intro valid container below
    obtain ⟨table, known, label⟩ := placed.exists_table_of_below below
    have named : container.name = table.name := congrArg Label.name label
    unfold checkContainer
    simp only [named, known]
    refine Except.forM_eq_ok_iff.mpr fun node member => ?_
    have inside := placed.mem_instancesIn_bare_iff.mpr ⟨container, below, named, node, member, rfl⟩
    exact (check_node_eq_ok_iff sound translated known inside dependent acts).mpr
      (valid table known _ inside)

/-- **Valid subjects are accepted, and no others.** A subject of rows is accepted for a create or an update
exactly if all of its list instances are valid, where leafrefs lead to the values that occur in the subject
or in the document that it depends on. -/
theorem accepts_iff_isValid [PatternReader] (built : Schema.build modules delimiter = .ok schema)
    (translated : ofRows schema rows = .ok subject) (dependent : Option Document) {operation : Operation}
    (acts : operation = .create ∨ operation = .update) :
    Processor.ofSchema schema subject dependent operation = .ok () ↔
      ∀ table, schema.table? table.name = some table → ∀ node ∈ subject.trees.instancesIn table.name,
        table.IsValid (subject.Supplies dependent) operation node := by
  exact ofSchema_eq_ok_iff (Schema.isSound_of_build built) translated dependent acts

/-- Whether a value stands in the leaf of a target in any list instance of a subject or of the document that
it depends on, whether or not a look-up leads there. -/
def Offers (subject : Document) (dependent : Option Document) (target : LeafrefTarget) (value : String) :
    Prop :=
  subject.trees.Holds target.table target.leaf value ∨
    ∃ data ∈ dependent, data.trees.Holds target.table target.leaf value

private theorem supplies_eq_offers {dependent : Option Document} (tabular : subject.trees.IsTabular schema)
    (dependentTabular : ∀ data ∈ dependent, data.trees.IsTabular schema) :
    subject.Supplies dependent = subject.Offers dependent := by
  funext target value
  refine propext (or_congr tabular.has_iff_holds (exists_congr fun data => and_congr_right fun given => ?_))
  exact (dependentTabular data given).has_iff_holds

/-- Where look-ups miss nothing of the document that a subject of rows depends on, as they miss nothing of a
document that is held, it is accepted exactly if its leafrefs lead to values that stand anywhere in the two,
and its list instances are valid otherwise. -/
theorem ofSchema_eq_ok_iff_of_isTabular (sound : schema.IsSound)
    (translated : ofRows schema rows = .ok subject) {dependent : Option Document}
    (dependentTabular : ∀ data ∈ dependent, data.trees.IsTabular schema) {operation : Operation}
    (acts : operation = .create ∨ operation = .update) :
    Processor.ofSchema schema subject dependent operation = .ok () ↔
      ∀ table, schema.table? table.name = some table → ∀ node ∈ subject.trees.instancesIn table.name,
        table.IsValid (subject.Offers dependent) operation node := by
  rw [ofSchema_eq_ok_iff sound translated dependent acts,
    supplies_eq_offers (isTabular_ofRows sound translated) dependentTabular]

/-- A table of ports with a bounded number, and one of members that refer to ports. -/
def boundedModules : List ModuleDecl := [{ name := "m", tables := [
  { name := "PORT", keyPattern := "PORT|\x7bname\x7d", leaves := [
    { name := "mtu", type := .int (some 68) (some 9216), mandatory := true }] },
  { name := "MEMBER", keyPattern := "MEMBER|\x7bid\x7d", leaves := [
    { name := "port", leafrefs := ["/m:m/PORT/PORT_LIST/name"] }] }] }]

/-- A port with a number, and a member that refers to another one, which a document has that it depends on. -/
def boundedRows (number : String) : TableRows :=
  (TableRows.single "PORT" "x" ((∅ : Fields).insert "mtu" number)).put "MEMBER" "r"
    ((∅ : Fields).insert "port" "y")

/-- A port and a member that are accepted are valid, and with a number out of bounds, the port is not. -/
theorem isValid_boundedRows : ∃ valid invalid dependent,
    ofRows (Schema.ofModules boundedModules) (boundedRows "9100") = .ok valid ∧
    ofRows (Schema.ofModules boundedModules) (boundedRows "9") = .ok invalid ∧
    (∀ table, (Schema.ofModules boundedModules).table? table.name = some table →
      ∀ node ∈ valid.trees.instancesIn table.name,
        table.IsValid (valid.Supplies (some dependent)) .create node) ∧
    ¬ ∀ table, (Schema.ofModules boundedModules).table? table.name = some table →
      ∀ node ∈ invalid.trees.instancesIn table.name,
        table.IsValid (invalid.Supplies (some dependent)) .create node := by
  have built := Schema.build_eq_ofModules
    (show (Schema.build boundedModules Schema.usualDelimiter).isOk by decide +kernel)
  have facts : (ofRows (Schema.ofModules boundedModules) (boundedRows "9100")).toOption.any fun valid =>
      (ofRows (Schema.ofModules boundedModules) (boundedRows "9")).toOption.any fun invalid =>
        (ofRow (Schema.ofModules boundedModules) "PORT" "y" ∅).toOption.any fun dependent =>
          (Processor.ofSchema (Schema.ofModules boundedModules) valid (some dependent) .create).isOk ∧
            ¬ (Processor.ofSchema (Schema.ofModules boundedModules) invalid (some dependent)
                .create).isOk := by
    decide +kernel
  obtain ⟨valid, validMade, facts⟩ := (Option.any_eq_true _ _).mp facts
  obtain ⟨invalid, invalidMade, facts⟩ := (Option.any_eq_true _ _).mp facts
  obtain ⟨dependent, _, facts⟩ := (Option.any_eq_true _ _).mp facts
  obtain ⟨accepted, rejected⟩ := of_decide_eq_true facts
  rw [Except.toOption_eq_some_iff] at validMade invalidMade
  refine ⟨valid, invalid, dependent, validMade, invalidMade, ?_, fun isValid => rejected ?_⟩
  · obtain ⟨_, passed⟩ := Except.exists_of_isOk accepted
    exact (accepts_iff_isValid built validMade (some dependent) (Or.inl rfl)).mp passed
  · rw [(accepts_iff_isValid built invalidMade (some dependent) (Or.inl rfl)).mpr isValid]
    rfl

end Document

end ConfigVetting
