import ConfigVetting.Proofs.Schema.RowKeys
import Mathlib.Algebra.BigOperators.Group.List.Basic
import Mathlib.Data.List.Lex
import Mathlib.Data.List.Sort

/-! # The list instances of a row key

A row key is split at its first delimiters into as many components as its table names. It stands for the
product of what these hold: a component that repeats holds the members between commas, any other one is
held as it stands. The product is listed once for each choice of positions, in the order of the positions
(`ConfigVetting.Schema.expandKey_isProduct`).
-/

namespace ConfigVetting

section Product

variable {α : Type}

/-- Whether a combination is made of the values at some positions, one position in each list. -/
inductive Picks : List (List α) → List Nat → List α → Prop where
  | nil : Picks [] [] []
  | cons {values : List α} {lists : List (List α)} {position : Nat} {positions : List Nat} {value : α}
      {others : List α} (taken : values[position]? = some value) (rest : Picks lists positions others) :
      Picks (values :: lists) (position :: positions) (value :: others)

/-- Whether combinations are the product of some lists: one for each choice of positions, in the order of
the positions, that in the first list before those in the later ones. -/
def IsProduct (lists combinations : List (List α)) : Prop :=
  ∃ choices : List (List Nat), choices.Pairwise (· < ·) ∧
    (∀ positions, positions ∈ choices ↔ ∃ combination, Picks lists positions combination) ∧
    List.Forall₂ (Picks lists) choices combinations

/-- All choices of positions in some lists. -/
def positionChoices (lists : List (List α)) : List (List Nat) :=
  choices (lists.map fun values => List.range values.length)

private theorem positionChoices_cons (values : List α) (lists : List (List α)) :
    positionChoices (values :: lists) = (List.range values.length).flatMap fun position =>
      (positionChoices lists).map fun positions => position :: positions := rfl

/-- The values of a list stand at its positions, in their order. -/
theorem forall₂_range (values : List α) :
    List.Forall₂ (fun position value => values[position]? = some value)
      (List.range values.length) values := by
  rw [List.forall₂_iff_get]
  refine ⟨List.length_range, fun position inRange inside => ?_⟩
  rw [List.get_eq_getElem, List.getElem_range]
  exact List.getElem?_eq_getElem inside

/-- The choices of values are picked by the choices of positions. -/
theorem forall₂_picks_choices (lists : List (List α)) :
    List.Forall₂ (Picks lists) (positionChoices lists) (choices lists) := by
  induction lists with
  | nil => exact .cons .nil .nil
  | cons values lists ih =>
      rw [positionChoices_cons, choices]
      refine List.rel_flatMap (forall₂_range values) fun position value taken => ?_
      rw [List.forall₂_map_left_iff, List.forall₂_map_right_iff]
      exact ih.imp fun positions others rest => .cons taken rest

/-- A choice of positions is one at which there are values. -/
theorem mem_positionChoices_iff {lists : List (List α)} {positions : List Nat} :
    positions ∈ positionChoices lists ↔ ∃ combination, Picks lists positions combination := by
  induction lists generalizing positions with
  | nil =>
      rw [positionChoices, List.map_nil, choices, List.mem_singleton]
      constructor
      · rintro rfl
        exact ⟨[], .nil⟩
      · rintro ⟨_, ⟨⟩⟩
        rfl
  | cons values lists ih =>
      simp only [positionChoices_cons, List.mem_flatMap, List.mem_range, List.mem_map]
      constructor
      · rintro ⟨position, inside, others, chosen, rfl⟩
        obtain ⟨combination, rest⟩ := ih.mp chosen
        exact ⟨_, .cons (List.getElem?_eq_getElem inside) rest⟩
      · rintro ⟨_, picks⟩
        cases picks with
        | cons taken rest =>
            exact ⟨_, (List.getElem?_eq_some_iff.mp taken).1, _, ih.mpr ⟨_, rest⟩, rfl⟩

/-- Choices of positions are listed in their order. -/
theorem pairwise_positionChoices (lists : List (List α)) :
    (positionChoices lists).Pairwise (· < ·) := by
  induction lists with
  | nil => exact List.pairwise_singleton _ _
  | cons values lists ih =>
      rw [positionChoices_cons, List.pairwise_flatMap]
      constructor
      · intro position _
        rw [List.pairwise_map]
        exact ih.imp List.Lex.cons
      · refine List.pairwise_lt_range.imp fun earlier first firstChosen second secondChosen => ?_
        obtain ⟨_, _, rfl⟩ := List.mem_map.mp firstChosen
        obtain ⟨_, _, rfl⟩ := List.mem_map.mp secondChosen
        exact List.Lex.rel earlier

private theorem isProduct_choices (lists : List (List α)) : IsProduct lists (choices lists) :=
  ⟨positionChoices lists, pairwise_positionChoices lists, fun _ => mem_positionChoices_iff,
    forall₂_picks_choices lists⟩

/-- There is one choice of values for each choice of positions. -/
theorem length_choices (lists : List (List α)) :
    (choices lists).length = (lists.map List.length).prod := by
  induction lists with
  | nil => rfl
  | cons values lists ih =>
      simp only [choices, List.length_flatMap, List.length_map, ih, List.map_const', List.sum_replicate,
        Nat.nsmul_eq_mul, List.map_cons, List.prod_cons]

/-- Positions pick one combination at most. -/
theorem Picks.unique {lists : List (List α)} {positions : List Nat} {first second : List α}
    (picks : Picks lists positions first) (again : Picks lists positions second) : first = second := by
  induction picks generalizing second with
  | nil =>
      cases again
      rfl
  | cons taken _ ih =>
      cases again with
      | cons takenAgain restAgain =>
          cases taken.symm.trans takenAgain
          rw [ih restAgain]

/-- Some lists have one product. -/
theorem IsProduct.unique {lists first second : List (List α)} (product : IsProduct lists first)
    (again : IsProduct lists second) : first = second := by
  obtain ⟨choices, sorted, all, picked⟩ := product
  obtain ⟨others, sortedAgain, allAgain, pickedAgain⟩ := again
  have same : choices = others :=
    sorted.eq_of_mem_iff sortedAgain fun positions => (all positions).trans (allAgain positions).symm
  subst same
  exact List.right_unique_forall₂' (fun _ _ _ picks again => picks.unique again) picked pickedAgain

end Product

namespace TableSchema

variable {table : TableSchema} {rowKey : String} {parts : List String}

/-- What a row key is split into: one part for each component, with the delimiter between them. The
delimiter behind each part but the last is the first one from the start of the part. -/
structure IsSplit (table : TableSchema) (rowKey : String) (parts : List String) : Prop where
  count : parts.length = table.segments.length
  joined : Text.joinWith table.keyDelimiter parts = rowKey
  first : ∀ part ∈ parts.dropLast, ∀ before after,
    part.toList ++ table.keyDelimiter.toList = before ++ (table.keyDelimiter.toList ++ after) →
      part.toList.length ≤ before.length

/-- What each part of a row key holds: a component that repeats holds the trimmed members between commas
that are not blank, any other one holds its part as it stands. -/
def memberLists (table : TableSchema) (parts : List String) : List (List String) :=
  (table.segments.zip parts).map fun (segment, part) =>
    if segment.repeating then
      ((Text.split "," part).filter fun piece => !Text.allBlank piece).map Text.trim
    else [part]

private theorem memberLists_eq (table : TableSchema) (parts : List String) :
    table.memberLists parts = table.componentValues parts := by
  refine List.map_congr_left fun ⟨segment, part⟩ _ => ?_
  change (if segment.repeating then _ else [part]) = if segment.repeating then listMembers part else [part]
  rw [listMembers_eq]

/-- Some component holds no members exactly if it repeats and nothing between its commas is more than
blank. -/
theorem nil_notMem_memberLists_iff : [] ∉ table.memberLists parts ↔
    ∀ pair ∈ table.segments.zip parts, pair.1.repeating →
      ∃ piece ∈ Text.split "," pair.2, ¬ Text.allBlank piece := by
  unfold memberLists
  simp only [List.mem_map, not_exists, not_and]
  refine forall₂_congr fun pair member => ?_
  by_cases repeating : pair.1.repeating
  · simp [repeating]
  · simp [repeating]

/-- A row key is split into components exactly if none of the parts it is split into is empty. -/
theorem splitKey_eq_some_iff_isSplit (named : table.segments ≠ []) :
    table.splitKey rowKey = some parts ↔ table.IsSplit rowKey parts ∧ ∀ part ∈ parts, part ≠ "" := by
  constructor
  · intro split
    obtain ⟨count, filled, areParts, joined⟩ := splitKey_sound named split
    exact ⟨⟨count, joined, fun part member => Text.isPart_iff.mp (areParts part member)⟩, filled⟩
  · rintro ⟨split, filled⟩
    have again := splitKey_instanceKey split.count named filled fun part member =>
      Text.isPart_iff.mpr (split.first part member)
    rwa [show table.instanceKey parts = rowKey from split.joined] at again

/-- A row key stands for the product of what its parts hold. -/
theorem expandKey_eq_ok_iff_isProduct (named : table.segments ≠ []) {combinations : List (List String)} :
    table.expandKey rowKey = .ok combinations ↔ ∃ parts, table.IsSplit rowKey parts ∧
      (∀ part ∈ parts, part ≠ "") ∧ [] ∉ table.memberLists parts ∧
        IsProduct (table.memberLists parts) combinations := by
  rw [expandKey_eq_ok_iff]
  refine exists_congr fun parts => ?_
  rw [splitKey_eq_some_iff_isSplit named, memberLists_eq, and_assoc]
  refine and_congr_right fun _ => and_congr_right fun _ => and_congr_right fun _ => ?_
  constructor
  · rintro rfl
    exact isProduct_choices _
  · exact fun product => product.unique (isProduct_choices _)

end TableSchema

namespace Schema

/-- **Expansion of row keys.** In a table of a schema that was built, a row key stands for list instances
exactly if it splits into the components that the table names, none of them is empty and each one that
repeats has a member. These instances are the product of what the components hold, each choice of members
once and in the order of their positions. What a row key is split into is joined to it again. -/
theorem expandKey_isProduct [PatternReader] {modules : List ModuleDecl} {delimiter : String} {schema : Schema}
    (built : build modules delimiter = .ok schema) {name : String} {table : TableSchema}
    (known : schema.table? name = some table) (rowKey : String) :
    ((∃ combinations, table.expandKey rowKey = .ok combinations) ↔ ∃ parts, table.IsSplit rowKey parts ∧
      (∀ part ∈ parts, part ≠ "") ∧ ∀ pair ∈ table.segments.zip parts, pair.1.repeating →
        ∃ piece ∈ Text.split "," pair.2, ¬ Text.allBlank piece) ∧
    (∀ combinations, table.expandKey rowKey = .ok combinations →
      ∃ parts, table.splitKey rowKey = some parts ∧ table.IsSplit rowKey parts ∧
        IsProduct (table.memberLists parts) combinations ∧
        combinations.length = ((table.memberLists parts).map List.length).prod) ∧
    (∀ parts, table.splitKey rowKey = some parts →
      Text.joinWith table.keyDelimiter parts = rowKey) := by
  have named := (isSound_of_build built name table known).2.named
  refine ⟨?_, fun combinations expanded => ?_, fun parts split => ?_⟩
  · constructor
    · rintro ⟨combinations, expanded⟩
      obtain ⟨parts, split, filled, held, _⟩ := (TableSchema.expandKey_eq_ok_iff_isProduct named).mp expanded
      exact ⟨parts, split, filled, TableSchema.nil_notMem_memberLists_iff.mp held⟩
    · rintro ⟨parts, split, filled, held⟩
      exact ⟨_, (TableSchema.expandKey_eq_ok_iff_isProduct named).mpr ⟨parts, split, filled,
        TableSchema.nil_notMem_memberLists_iff.mpr held, isProduct_choices _⟩⟩
  · obtain ⟨parts, split, filled, _, product⟩ :=
      (TableSchema.expandKey_eq_ok_iff_isProduct named).mp expanded
    refine ⟨parts, (TableSchema.splitKey_eq_some_iff_isSplit named).mpr ⟨split, filled⟩, split,
      product, ?_⟩
    rw [product.unique (isProduct_choices _), length_choices]
  · exact ((TableSchema.splitKey_eq_some_iff_isSplit named).mp split).1.joined

/-- A table of queues, whose row keys list ports and numbers. -/
def queueModules : List ModuleDecl := [{ name := "m", tables := [
  { name := "QUEUE", keyPattern := "QUEUE|(\x7bports\x7d,)*|(\x7bnumbers\x7d,)*" }] }]

/-- Two ports and two numbers, one of them behind an empty place, are four queues. -/
theorem isProduct_queues : ∃ schema table parts, build queueModules usualDelimiter = .ok schema ∧
    schema.table? "QUEUE" = some table ∧ table.IsSplit "E0, E4|0,,1" parts ∧
      IsProduct (table.memberLists parts) [["E0", "0"], ["E0", "1"], ["E4", "0"], ["E4", "1"]] := by
  have built := build_eq_ofModules
    (show (build queueModules usualDelimiter).isOk by decide +kernel)
  have facts : ((ofModules queueModules).table? "QUEUE").any fun table =>
      (table.expandKey "E0, E4|0,,1").toOption =
        some [["E0", "0"], ["E0", "1"], ["E4", "0"], ["E4", "1"]] := by
    decide +kernel
  obtain ⟨table, known, expanded⟩ := (Option.any_eq_true _ _).mp facts
  obtain ⟨parts, _, split, product, _⟩ := (expandKey_isProduct built known "E0, E4|0,,1").2.1 _
    (Except.toOption_eq_some_iff.mp (of_decide_eq_true expanded))
  exact ⟨_, table, parts, built, known, split, product⟩

end Schema

end ConfigVetting
