import ConfigVetting.Check
import ConfigVetting.Proofs.Document.Contents

/-! # Subjects that pass

The values that a list instance gives are collected before they are checked
(`ConfigVetting.Check.Place.mem_collected_iff`). So if a subject passes, the values of its leafrefs stand in
the subject or in the data that it depends on (`ConfigVetting.Schema.containsValue_of_check`). Of this data
nothing else matters (`ConfigVetting.Schema.check_of_holds`).
-/

namespace ConfigVetting

open Check

variable {σ τ : Type}

/-- Whether a list instance has a value in a leaf directly below it, or in the value leaf of an
entry. -/
def TableSchema.Gives (table : TableSchema) (node : Node σ) (field value : String) : Prop :=
  value ∈ node.leafValues field ∨ ∃ nameLeaf, table.mapLeaves = some (nameLeaf, field) ∧
    ∃ entry ∈ node.children, entry.kind = .list ∧ value ∈ entry.leafValues field

/-- What a node gives does not depend on its slots. -/
theorem TableSchema.gives_bare {table : TableSchema} {node : Node σ} {field value : String} :
    table.Gives node.bare field value ↔ table.Gives node field value := by
  unfold Gives
  simp only [Node.leafValues_bare, Node.children_bare, Forest.bare, List.mem_map,
    exists_exists_and_eq_and, Node.kind_bare]

namespace Check.Place

/-- The values collected for a field. -/
def collected (values : Values) (field : String) : List String :=
  values[field]?.getD []

private theorem mem_collected_insert {values : Values} {name field value : String} {more : List String} :
    value ∈ collected (values.insert name (values[name]?.getD [] ++ more)) field ↔
      value ∈ collected values field ∨ name = field ∧ value ∈ more := by
  unfold collected
  rw [ByName.getElem?_insert]
  by_cases own : name = field
  · subst own
    simp
  · simp [own]

/-- Whether a child of a list instance adds a value to a field: it is a leaf of the field with the value,
or an entry that has the value in its value leaf. -/
def Adds (place : Place) (child : Node σ) (field value : String) : Prop :=
  (child.kind = .leaf ∨ child.kind = .leafList) ∧ child.name = field ∧ child.value.getD "" = value ∨
    ∃ nameLeaf, place.table.mapLeaves = some (nameLeaf, field) ∧ child.kind = .list ∧
      value ∈ child.leafValues field

variable {place : Place} {values later : Values} {field value : String}

/-- What collecting the values of a child of a list instance leads to. -/
inductive Collects (place : Place) (values : Values) (child : Node σ) : Values → Prop where
  /-- A leaf or a member of a leaf-list has a field that the table knows, and no leaf gives a field twice. -/
  | leaf (isLeaf : child.kind = .leaf ∨ child.kind = .leafList)
      (known : place.table.isKey child.name = true ∨ (place.table.leaf? child.name).isSome = true)
      (once : child.kind = .leaf → place.table.isLeafList child.name = false →
        collected values child.name = []) :
      Collects place values child
        (values.insert child.name (values[child.name]?.getD [] ++ [child.value.getD ""]))
  /-- An entry gives the values of its value leaf. -/
  | entry {nameLeaf valueLeaf : String} (isEntry : child.kind = .list)
      (mapped : place.table.mapLeaves = some (nameLeaf, valueLeaf))
      (given : child.leafValues valueLeaf ≠ []) :
      Collects place values child
        (values.insert valueLeaf (values[valueLeaf]?.getD [] ++ child.leafValues valueLeaf))
  | nothing (isEntry : child.kind = .list) (none : ∀ nameLeaf valueLeaf,
      place.table.mapLeaves = some (nameLeaf, valueLeaf) → child.leafValues valueLeaf = []) :
      Collects place values child values

/-- Values that were added were collected. -/
theorem collects_of_addValues {child : Node σ} (added : place.addValues values child = .ok later) :
    Collects place values child later := by
  unfold addValues at added
  cases kind : child.kind with
  | leaf | leafList =>
      simp only [kind] at added
      split at added
      · cases added
      · next outside =>
          split at added
          · cases added
          · next once =>
              cases added
              have known : place.table.isKey child.name = true ∨
                  (place.table.leaf? child.name).isSome = true :=
                Decidable.not_not.mp fun unknown => outside (by simpa using unknown)
              refine .leaf (by simp [kind]) known fun leaf single => ?_
              simpa [kind ▸ leaf, single, collected] using once
  | list =>
      simp only [kind] at added
      cases mapped : place.table.mapLeaves with
      | none =>
          simp only [mapped] at added
          cases added
          exact .nothing kind fun _ _ impossible => by simp [mapped] at impossible
      | some leaves =>
          obtain ⟨nameLeaf, valueLeaf⟩ := leaves
          simp only [mapped] at added
          split at added
          · next none =>
              cases added
              refine .nothing kind fun _ _ same => ?_
              cases mapped.symm.trans same
              exact none
          · next given =>
              cases added
              exact .entry kind mapped given
  | module | container =>
      simp only [kind] at added
      cases added

/-- Collecting the values of a child adds those that it has, and no others. -/
theorem mem_collected_addValues {child : Node σ}
    (added : place.addValues values child = .ok later) :
    value ∈ collected later field ↔
      value ∈ collected values field ∨ place.Adds child field value := by
  unfold Adds
  cases collects_of_addValues added with
  | leaf isLeaf =>
      have noEntry : child.kind ≠ .list := by
        rcases isLeaf with kind | kind <;> simp [kind]
      rw [mem_collected_insert, List.mem_singleton, and_iff_right isLeaf]
      simp [noEntry, eq_comm]
  | entry isEntry mapped given =>
      rw [mem_collected_insert]
      refine or_congr_right ⟨?_, ?_⟩
      · rintro ⟨rfl, inside⟩
        exact Or.inr ⟨_, mapped, isEntry, inside⟩
      · rintro (⟨impossible, _⟩ | ⟨_, again, _, inside⟩)
        · simp [isEntry] at impossible
        · cases mapped.symm.trans again
          exact ⟨rfl, inside⟩
  | nothing isEntry none =>
      refine (or_iff_left ?_).symm
      rintro (⟨impossible, _⟩ | ⟨nameLeaf, mapped, _, inside⟩)
      · simp [isEntry] at impossible
      · rw [none nameLeaf field mapped] at inside
        cases inside

/-- Collecting the values of children adds theirs, and no others. -/
theorem mem_collected_foldlM {children : Forest σ} {start last : Values}
    (finished : children.foldlM place.addValues start = .ok last) :
    value ∈ collected last field ↔
      value ∈ collected start field ∨ ∃ child ∈ children, place.Adds child field value := by
  induction children generalizing start with
  | nil =>
      cases finished
      simp
  | cons first rest ih =>
      rw [List.foldlM_cons] at finished
      obtain ⟨middle, stepped, others⟩ := Except.bind_eq_ok_iff.mp finished
      rw [ih others, mem_collected_addValues stepped, List.exists_mem_cons_iff, or_assoc]

/-- The values that are collected of a list instance are those that it gives, but for empty ones of leaves
that have none. -/
theorem mem_collected_iff {node : Node σ} (made : place.values node = .ok values)
    (filled : ∀ child ∈ node.children, child.kind = .leaf ∨ child.kind = .leafList →
      child.value = none → value ≠ "") :
    value ∈ collected values field ↔ place.table.Gives node field value := by
  have fresh : value ∉ collected ∅ field := by
    simp [collected]
  rw [mem_collected_foldlM made, or_iff_right fresh]
  unfold TableSchema.Gives Adds
  constructor
  · rintro ⟨child, inside, ⟨kind, named, held⟩ | ⟨nameLeaf, mapped, isList, held⟩⟩
    · refine Or.inl (Node.mem_leafValues_iff.mpr ⟨child, inside, named, kind, ?_⟩)
      cases own : child.value with
      | none =>
          rw [own] at held
          exact absurd held.symm (filled child inside kind own)
      | some text =>
          rw [own] at held
          exact congrArg some held
    · exact Or.inr ⟨nameLeaf, mapped, child, inside, isList, held⟩
  · rintro (direct | ⟨nameLeaf, mapped, entry, inside, isList, held⟩)
    · obtain ⟨child, inside, named, kind, held⟩ := Node.mem_leafValues_iff.mp direct
      refine ⟨child, inside, Or.inl ⟨kind, named, ?_⟩⟩
      rw [held]
      rfl
    · exact ⟨entry, inside, Or.inr ⟨nameLeaf, mapped, isList, held⟩⟩

/-- A reference holds if its value is blank or found at one of its targets. -/
theorem checkLeafref_eq_ok_iff {holds : LeafrefTarget → String → Bool} {leaf : LeafSchema} :
    place.checkLeafref holds leaf value = .ok () ↔
      (leaf.targets ≠ [] → value ≠ "" → ∃ target ∈ leaf.targets, holds target value = true) := by
  unfold checkLeafref
  by_cases resolved : (leaf.targets.isEmpty || value.isEmpty ||
      leaf.targets.any fun target => holds target value) = true
  · rw [if_pos resolved]
    refine iff_of_true rfl fun refers filled => ?_
    simpa [refers, filled] using resolved
  · rw [if_neg resolved]
    refine iff_of_false nofun fun holds => resolved ?_
    by_cases refers : leaf.targets = []
    · simp [refers]
    · by_cases filled : value = ""
      · simp [filled]
      · simp [holds refers filled]

/-- The values of a list instance pass if each of them passes. -/
theorem checkValues_eq_ok_iff {holds : LeafrefTarget → String → Bool} :
    place.checkValues holds values = .ok () ↔
      ∀ field leaf, place.table.leaf? field = some leaf → ∀ value ∈ collected values field,
        place.checkType leaf.decl value = .ok () ∧ place.checkPattern leaf value = .ok () ∧
          place.checkLeafref holds leaf value = .ok () := by
  have each : ∀ leaf value, place.checkValue holds leaf value = .ok () ↔
      place.checkType leaf.decl value = .ok () ∧ place.checkPattern leaf value = .ok () ∧
        place.checkLeafref holds leaf value = .ok () := by
    intro leaf value
    unfold checkValue
    rw [Except.bind_eq_ok_iff]
    simp only [Except.bind_eq_ok_iff]
    constructor
    · rintro ⟨_, type, _, pattern, leafref⟩
      exact ⟨type, pattern, leafref⟩
    · rintro ⟨type, pattern, leafref⟩
      exact ⟨(), type, (), pattern, leafref⟩
  unfold checkValues
  rw [Except.forM_eq_ok_iff]
  simp only [← each]
  constructor
  · intro all field leaf declared value inside
    unfold collected at inside
    cases found : values[field]? with
    | none => simp [found] at inside
    | some members =>
        rw [found] at inside
        have own := all (field, members) (Std.ExtTreeMap.mem_toList_iff_getElem?_eq_some.mpr found)
        simp only [declared] at own
        exact Except.forM_eq_ok_iff.mp own value inside
  · rintro all ⟨field, members⟩ member
    have found := Std.ExtTreeMap.mem_toList_iff_getElem?_eq_some.mp member
    simp only
    cases declared : place.table.leaf? field with
    | none => rfl
    | some leaf =>
        refine Except.forM_eq_ok_iff.mpr fun value inside => all field leaf declared value ?_
        rwa [collected, found]

/-- A list instance that passes has its leafrefs hold. -/
theorem holds_of_check {holds : LeafrefTarget → String → Bool}
    {operation : Operation} (acts : operation = .create ∨ operation = .update) {node : Node σ}
    (accepted : place.check holds operation node = .ok ()) {leaf : LeafSchema}
    (declared : place.table.leaf? field = some leaf) (refers : leaf.targets ≠ [])
    (filled : value ≠ "") (given : place.table.Gives node field value) :
    ∃ target ∈ leaf.targets, holds target value = true := by
  obtain ⟨values, made, rest⟩ := Except.bind_eq_ok_iff.mp accepted
  have checked : place.checkValues holds values = .ok () := by
    rcases acts with rfl | rfl
    · obtain ⟨_, passed, _⟩ := Except.bind_eq_ok_iff.mp rest
      exact passed
    · exact rest
  obtain ⟨_, _, leafref⟩ := checkValues_eq_ok_iff.mp checked field leaf declared value
    ((mem_collected_iff made fun _ _ _ _ => filled).mpr given)
  exact checkLeafref_eq_ok_iff.mp leafref refers filled

/-- A list instance that passes while leafrefs are looked up in one way passes in another one in which all
of its leafrefs hold. -/
theorem check_of_holds {holds others : LeafrefTarget → String → Bool} {operation : Operation}
    {node : Node σ} (accepted : place.check holds operation node = .ok ())
    (hold : ∀ field leaf value, place.table.leaf? field = some leaf → leaf.targets ≠ [] → value ≠ "" →
      place.table.Gives node field value → ∃ target ∈ leaf.targets, others target value = true) :
    place.check others operation node = .ok () := by
  obtain ⟨values, made, rest⟩ := Except.bind_eq_ok_iff.mp accepted
  have transfer : place.checkValues holds values = .ok () →
      place.checkValues others values = .ok () := by
    intro checked
    refine checkValues_eq_ok_iff.mpr fun field leaf declared value inside => ?_
    obtain ⟨type, pattern, _⟩ := checkValues_eq_ok_iff.mp checked field leaf declared value inside
    refine ⟨type, pattern, checkLeafref_eq_ok_iff.mpr fun refers filled => ?_⟩
    exact hold field leaf value declared refers filled ((mem_collected_iff made fun _ _ _ _ =>
      filled).mp inside)
  refine Except.bind_eq_ok_iff.mpr ⟨values, made, ?_⟩
  cases operation with
  | create =>
      obtain ⟨answer, checked, complete⟩ := Except.bind_eq_ok_iff.mp rest
      exact Except.bind_eq_ok_iff.mpr ⟨answer, transfer checked, complete⟩
  | delete => exact rest
  | update => exact transfer rest
  | none => exact transfer rest

end Check.Place

namespace Schema

/-- The values of leafrefs in a subject that passes stand in the subject or in the data it depends
on. -/
theorem containsValue_of_check {schema : Schema} {subject : Forest σ} {dependent : Forest τ}
    {operation : Operation} (acts : operation = .create ∨ operation = .update)
    (accepted : schema.check subject (some dependent) operation = .ok ()) {table : TableSchema}
    (known : schema.table? table.name = some table) {container : Node σ}
    (below : container ∈ subject.flatMap Node.children) (named : container.name = table.name)
    {node : Node σ} (inside : node ∈ container.children) {field value : String} {leaf : LeafSchema}
    (declared : table.leaf? field = some leaf) (refers : leaf.targets ≠ []) (filled : value ≠ "")
    (given : table.Gives node field value) :
    ∃ target ∈ leaf.targets, subject.containsValue target.table target.leaf value = true ∨
      dependent.containsValue target.table target.leaf value = true := by
  unfold check at accepted
  rw [if_neg (by rcases acts with rfl | rfl <;> nofun)] at accepted
  have own := Except.forM_eq_ok_iff.mp accepted container below
  unfold checkContainer at own
  simp only [named, known] at own
  have one := Except.forM_eq_ok_iff.mp own node inside
  obtain ⟨target, listed, holds⟩ := Place.holds_of_check acts one declared refers filled given
  refine ⟨target, listed, ?_⟩
  simpa [holdsIn] using holds

/-- A subject that passes with some data passes with other data in which all of its leafrefs hold. -/
theorem check_of_holds {schema : Schema} {subject : Forest σ} {dependent other : Forest τ}
    {operation : Operation} (accepted : schema.check subject (some dependent) operation = .ok ())
    (hold : ∀ table, schema.table? table.name = some table →
      ∀ container ∈ subject.flatMap Node.children, container.name = table.name →
        ∀ node ∈ container.children, ∀ field leaf value, table.leaf? field = some leaf →
          leaf.targets ≠ [] → value ≠ "" → table.Gives node field value →
            ∃ target ∈ leaf.targets, holdsIn subject (some other) target value = true)
    (sound : schema.IsSound) : schema.check subject (some other) operation = .ok () := by
  unfold check at accepted ⊢
  split at accepted
  · next inert => rw [if_pos inert]
  · next acts =>
      rw [if_neg acts]
      refine Except.forM_eq_ok_iff.mpr fun container below => ?_
      have own := Except.forM_eq_ok_iff.mp accepted container below
      unfold checkContainer at own ⊢
      cases found : schema.table? container.name with
      | none => rwa [found] at own
      | some table =>
          rw [found] at own
          simp only at own ⊢
          have named := (sound _ table found).1
          refine Except.forM_eq_ok_iff.mpr fun node inside => ?_
          refine Place.check_of_holds (Except.forM_eq_ok_iff.mp own node inside) ?_
          exact hold table (named.symm ▸ found) container below named.symm node inside

end Schema

/-- The values of leafrefs in a document that passes are held by the document or by the one that it
depends on. -/
theorem Document.holds_of_check {schema : Schema} {subject dependent : Document}
    {operation : Operation} (acts : operation = .create ∨ operation = .update)
    (accepted : schema.check subject.roots (some dependent.roots) operation = .ok ())
    {table : TableSchema} (known : schema.table? table.name = some table) {container : Tree}
    (below : container ∈ subject.trees.flatMap Node.children) (named : container.name = table.name)
    {node : Tree} (inside : node ∈ container.children) {field value : String} {leaf : LeafSchema}
    (declared : table.leaf? field = some leaf) (refers : leaf.targets ≠ []) (filled : value ≠ "")
    (given : table.Gives node field value) :
    ∃ target ∈ leaf.targets, subject.trees.Holds target.table target.leaf value ∨
      dependent.trees.Holds target.table target.leaf value := by
  rw [trees, Forest.flatMap_children_bare] at below
  obtain ⟨own, ownBelow, rfl⟩ := List.mem_map.mp below
  rw [Node.children_bare] at inside
  obtain ⟨ownNode, ownInside, rfl⟩ := List.mem_map.mp inside
  rw [Node.name_bare] at named
  obtain ⟨target, listed, found⟩ := Schema.containsValue_of_check acts accepted known
    ownBelow named ownInside declared refers filled (TableSchema.gives_bare.mp given)
  refine ⟨target, listed, found.imp (fun inSubject => ?_) fun inDependent => ?_⟩
  · exact Forest.holds_of_containsValue ((Forest.containsValue_bare _ _ _ _).trans inSubject)
  · exact Forest.holds_of_containsValue ((Forest.containsValue_bare _ _ _ _).trans inDependent)

end ConfigVetting
