import ConfigVetting.Proofs.Schema.Tables
import ConfigVetting.Proofs.Text.Members

/-! # Keys of list instances

A row key stands for list instances, whose keys are joined from one member of each component. Such a
key is read as a row key again when a row is patched in a document
(`ConfigVetting.TableSchema.Rejoins`). It stands for the same instance alone if it is cut where it was
joined (`ConfigVetting.TableSchema.CutsAsJoined.areParts`), as it is unless the delimiter of the table
overlaps itself and a component before the last one repeats
(`ConfigVetting.TableSchema.JoinsPlainly.expandKey_instanceKey`).
-/

namespace ConfigVetting

/-- A choice takes one of each of the lists. -/
theorem mem_choices_iff {α : Type} {lists : List (List α)} {choice : List α} :
    choice ∈ choices lists ↔ List.Forall₂ (fun value values => value ∈ values) choice lists := by
  induction lists generalizing choice with
  | nil => simp [choices]
  | cons values lists ih =>
      simp only [choices, List.mem_flatMap, List.mem_map]
      constructor
      · rintro ⟨value, member, others, chosen, rfl⟩
        exact .cons member (ih.mp chosen)
      · intro related
        cases related with
        | cons member rest => exact ⟨_, member, _, ih.mpr rest, rfl⟩

/-- There is a choice if there is something to choose from each list. -/
theorem exists_mem_choices {α : Type} {lists : List (List α)} (filled : [] ∉ lists) :
    ∃ choice, choice ∈ choices lists := by
  induction lists with
  | nil => exact ⟨[], List.mem_cons_self⟩
  | cons values lists ih =>
      obtain ⟨others, chosen⟩ := ih fun later => filled (List.mem_cons_of_mem _ later)
      cases values with
      | nil => exact absurd List.mem_cons_self filled
      | cons value values =>
          refine ⟨value :: others, mem_choices_iff.mpr (.cons List.mem_cons_self ?_)⟩
          exact mem_choices_iff.mp chosen

/-- Nothing is chosen from an empty list. -/
theorem nil_notMem_of_mem_choices {α : Type} {lists : List (List α)} {choice : List α}
    (chosen : choice ∈ choices lists) : [] ∉ lists := by
  intro member
  obtain ⟨_, _, nothing⟩ := Except.exists_of_mem_right (mem_choices_iff.mp chosen) member
  exact List.not_mem_nil nothing

/-- Each value of each list is chosen by some choice, if there is something to choose from the others. -/
theorem exists_mem_choices_of_mem {α : Type} {lists : List (List α)} (filled : [] ∉ lists)
    {position : Nat} {values : List α} (own : lists[position]? = some values) {value : α}
    (member : value ∈ values) : ∃ choice ∈ choices lists, choice[position]? = some value := by
  induction lists generalizing position with
  | nil => cases own
  | cons first lists ih =>
      obtain ⟨filledFirst, filledRest⟩ := not_or.mp (mt List.mem_cons.mpr filled)
      cases position with
      | zero =>
          cases own
          obtain ⟨others, chosen⟩ := exists_mem_choices filledRest
          exact ⟨value :: others, mem_choices_iff.mpr (.cons member (mem_choices_iff.mp chosen)), rfl⟩
      | succ position =>
          obtain ⟨others, chosen, held⟩ := ih filledRest own
          obtain ⟨one, listed⟩ := List.exists_mem_of_ne_nil first (Ne.symm filledFirst)
          exact ⟨one :: others, mem_choices_iff.mpr (.cons listed (mem_choices_iff.mp chosen)), held⟩

/-- The only choice of single values. -/
theorem choices_singletons {α : Type} (values : List α) :
    choices (values.map fun value => [value]) = [values] := by
  induction values with
  | nil => rfl
  | cons value values ih => simp [choices, ih]

namespace TableSchema

variable {table : TableSchema}

/-- The delimiter of a sound table is not blank. -/
theorem IsSound.delimiter_ne_nil (sound : table.IsSound) : table.keyDelimiter.toList ≠ [] :=
  fun empty => sound.delimited (String.toList_inj.mp empty)

/-- A key has components exactly if it can be split. -/
theorem components_eq_ok_iff {rowKey : String} {components : List String} :
    table.components rowKey = .ok components ↔ table.splitKey rowKey = some components := by
  unfold TableSchema.components
  cases table.splitKey rowKey with
  | none => simp
  | some found => simp

/-- What a row key is split into: parts between delimiters, as many as the table names. -/
theorem splitKey_eq_some_iff {cuts : Nat} (count : table.segments.length = cuts + 1)
    {rowKey : String} {components : List String} :
    table.splitKey rowKey = some components ↔
      components = (Text.splitChars table.keyDelimiter.toList cuts rowKey.toList).map
        String.ofList ∧ components.length = cuts + 1 ∧ ∀ component ∈ components, component ≠ "" := by
  unfold splitKey
  simp only [count, Text.splitAtMost]
  rw [Option.ite_none_right_eq_some, Bool.and_eq_true, decide_eq_true_iff, List.all_eq_true,
    Option.some.injEq]
  simp only [Bool.not_eq_eq_eq_not, Bool.not_true, String.isEmpty_eq_false_iff]
  constructor
  · rintro ⟨⟨length, filled⟩, rfl⟩
    exact ⟨rfl, length, filled⟩
  · rintro ⟨rfl, length, filled⟩
    exact ⟨⟨length, filled⟩, rfl⟩

/-- The components of a row key are as many as the table names, none is empty, and each but the last
is cut off at the delimiter behind it. Joined again, they are the row key. -/
theorem splitKey_sound (named : table.segments ≠ []) {rowKey : String} {components : List String}
    (split : table.splitKey rowKey = some components) :
    components.length = table.segments.length ∧ (∀ component ∈ components, component ≠ "") ∧
      (∀ component ∈ components.dropLast,
        Text.IsPart table.keyDelimiter.toList component.toList) ∧
      table.instanceKey components = rowKey := by
  obtain ⟨cuts, count⟩ := Nat.exists_eq_succ_of_ne_zero
    (fun zero => named (List.eq_nil_of_length_eq_zero zero))
  obtain ⟨rfl, length, filled⟩ := (splitKey_eq_some_iff count).mp split
  refine ⟨length.trans count.symm, filled, ?_, ?_⟩
  · intro component member
    rw [← List.map_dropLast, List.mem_map] at member
    obtain ⟨part, inside, rfl⟩ := member
    rw [String.toList_ofList]
    exact Text.isPart_of_mem_splitChars part inside
  · exact Text.joinWith_splitChars table.keyDelimiter rowKey cuts

/-- Components that are cut off as such are the components of the key joined from them. -/
theorem splitKey_instanceKey {components : List String}
    (count : components.length = table.segments.length) (named : table.segments ≠ [])
    (filled : ∀ component ∈ components, component ≠ "")
    (areParts : ∀ component ∈ components.dropLast,
      Text.IsPart table.keyDelimiter.toList component.toList) :
    table.splitKey (table.instanceKey components) = some components := by
  obtain ⟨cuts, segments⟩ := Nat.exists_eq_succ_of_ne_zero
    (fun zero => named (List.eq_nil_of_length_eq_zero zero))
  refine (splitKey_eq_some_iff segments).mpr ⟨?_, count.trans segments, filled⟩
  have some : components ≠ [] := by
    rintro rfl
    rw [segments] at count
    cases count
  obtain ⟨parts, last, rfl⟩ : ∃ parts last, components = parts ++ [last] :=
    ⟨components.dropLast, components.getLast some, (List.dropLast_concat_getLast some).symm⟩
  have length : parts.length = cuts := by
    rw [List.length_append, List.length_singleton, segments] at count
    omega
  rw [List.dropLast_concat] at areParts
  have again : Text.splitChars table.keyDelimiter.toList (parts.map String.toList).length
      (table.keyDelimiter.toList.intercalate (parts.map String.toList ++ [last.toList])) =
        parts.map String.toList ++ [last.toList] := by
    apply Text.splitChars_intercalate
    intro part member
    obtain ⟨component, inside, rfl⟩ := List.mem_map.mp member
    exact areParts component inside
  rw [List.length_map, length] at again
  rw [instanceKey, Text.joinWith, String.toList_intercalate, List.map_append, List.map_singleton,
    again]
  simp

/-- The values of the components of a row key. -/
def componentValues (table : TableSchema) (components : List String) : List (List String) :=
  (table.segments.zip components).map fun (segment, component) => segment.values component

/-- The values of one component of a row key, unless there are none. -/
theorem values_eq_ok_iff {rejection : Rejection} {found values : List String} :
    (match found with
      | [] => .error rejection
      | values => .ok values : Except Rejection (List String)) = .ok values ↔
        found = values ∧ found ≠ [] := by
  cases found with
  | nil => simp
  | cons value others => simp

/-- The values of the components of a row key one by one, none without a value. -/
theorem forall₂_values_iff {rejection : KeySegment × String → Rejection}
    {pairs : List (KeySegment × String)} {values : List (List String)} :
    List.Forall₂ (fun (pair : KeySegment × String) values =>
      (match pair.1.values pair.2 with
        | [] => .error (rejection pair)
        | values => .ok values : Except Rejection (List String)) = .ok values) pairs values ↔
      (pairs.map fun pair => pair.1.values pair.2) = values ∧ [] ∉ values := by
  induction pairs generalizing values with
  | nil =>
      constructor
      · rintro ⟨⟩
        exact ⟨rfl, List.not_mem_nil⟩
      · rintro ⟨rfl, _⟩
        exact .nil
  | cons pair pairs ih =>
      rw [List.forall₂_cons_left_iff]
      constructor
      · rintro ⟨own, others, found, rest, rfl⟩
        obtain ⟨rfl, filled⟩ := values_eq_ok_iff.mp found
        obtain ⟨rfl, restFilled⟩ := ih.mp rest
        refine ⟨rfl, ?_⟩
        rw [List.mem_cons, not_or]
        exact ⟨fun none => filled none.symm, restFilled⟩
      · rintro ⟨rfl, filled⟩
        rw [List.map_cons, List.mem_cons, not_or] at filled
        exact ⟨_, _, values_eq_ok_iff.mpr ⟨rfl, fun none => filled.1 none.symm⟩,
          ih.mpr ⟨rfl, filled.2⟩, rfl⟩

/-- A row key stands for the choices of the values of its components, none without a value. -/
theorem expandKey_eq_ok_iff {rowKey : String} {combinations : List (List String)} :
    table.expandKey rowKey = .ok combinations ↔ ∃ components,
      table.splitKey rowKey = some components ∧ [] ∉ table.componentValues components ∧
        combinations = choices (table.componentValues components) := by
  unfold expandKey
  rw [Except.bind_eq_ok_iff]
  constructor
  · rintro ⟨components, split, rest⟩
    obtain ⟨values, found, answered⟩ := Except.bind_eq_ok_iff.mp rest
    cases answered
    obtain ⟨rfl, filled⟩ := forall₂_values_iff.mp (Except.mapM_eq_ok_iff.mp found)
    exact ⟨components, components_eq_ok_iff.mp split, filled, rfl⟩
  · rintro ⟨components, split, filled, rfl⟩
    exact ⟨components, components_eq_ok_iff.mpr split, Except.bind_eq_ok_iff.mpr ⟨_,
      Except.mapM_eq_ok_iff.mpr (forall₂_values_iff.mpr ⟨rfl, filled⟩), rfl⟩⟩

/-- A value of a component is the only value of itself. -/
theorem values_of_mem {segment : KeySegment} {component value : String}
    (member : value ∈ segment.values component) : segment.values value = [value] := by
  unfold KeySegment.values at member ⊢
  by_cases repeating : segment.repeating
  · rw [if_pos repeating] at member ⊢
    exact listMembers_of_mem member
  · rw [if_neg repeating]

/-- A value of a component that is not empty is not empty. -/
theorem ne_empty_of_mem_values {segment : KeySegment} {component value : String}
    (filled : component ≠ "") (member : value ∈ segment.values component) : value ≠ "" := by
  unfold KeySegment.values at member
  by_cases repeating : segment.repeating
  · rw [if_pos repeating] at member
    exact ne_empty_of_mem_listMembers member
  · rw [if_neg repeating, List.mem_singleton] at member
    rwa [member]

/-- The components of a list instance, one by one a value of those of its row key. -/
structure IsChosen (segments : List KeySegment) (parts components : List String) : Prop where
  count : parts.length = segments.length
  chosen : List.Forall₂ (fun value values => value ∈ values) components
    ((segments.zip parts).map fun pair => pair.1.values pair.2)

namespace IsChosen

variable {segment : KeySegment} {segments : List KeySegment} {parts components : List String}

/-- The components of a list instance of a table with one more component. -/
theorem cons_iff : IsChosen (segment :: segments) parts components ↔
    ∃ part others value values, parts = part :: others ∧ components = value :: values ∧
      value ∈ segment.values part ∧ IsChosen segments others values := by
  constructor
  · rintro ⟨count, chosen⟩
    cases parts with
    | nil => cases count
    | cons part others =>
        cases chosen with
        | cons member rest =>
            exact ⟨part, others, _, _, rfl, rfl, member, Nat.succ.inj count, rest⟩
  · rintro ⟨part, others, value, values, rfl, rfl, member, count, rest⟩
    exact ⟨congrArg Nat.succ count, .cons member rest⟩

/-- There is one component for each segment of the pattern. -/
theorem length_eq (chosen : IsChosen segments parts components) :
    components.length = segments.length := by
  have lengths := chosen.chosen.length_eq
  rw [List.length_map, List.length_zip, chosen.count, Nat.min_self] at lengths
  exact lengths

private theorem eq_nil (chosen : IsChosen [] parts components) : components = [] :=
  List.eq_nil_of_length_eq_zero chosen.length_eq

/-- No component is blank if no part of the key is. -/
theorem ne_empty (chosen : IsChosen segments parts components)
    (filled : ∀ part ∈ parts, part ≠ "") : ∀ component ∈ components, component ≠ "" := by
  induction segments generalizing parts components with
  | nil => simp [chosen.eq_nil]
  | cons segment segments ih =>
      obtain ⟨part, others, value, values, rfl, rfl, member, rest⟩ := cons_iff.mp chosen
      rw [List.forall_mem_cons] at filled ⊢
      exact ⟨ne_empty_of_mem_values filled.1 member, ih rest filled.2⟩

/-- Each component of a list instance is the only value of itself. -/
theorem values_eq (chosen : IsChosen segments parts components) :
    ((segments.zip components).map fun pair => pair.1.values pair.2) =
      components.map fun component => [component] := by
  induction segments generalizing parts components with
  | nil => simp [chosen.eq_nil]
  | cons segment segments ih =>
      obtain ⟨part, others, value, values, rfl, rfl, member, rest⟩ := cons_iff.mp chosen
      rw [List.zip_cons_cons, List.map_cons, List.map_cons, ih rest, values_of_mem member]

/-- The components of a list instance but the last are cut off as those of its row key are, unless
members blur the separator and one of them is a member of a list. -/
theorem areParts {separator : List Char} (filled : separator ≠ [])
    (chosen : IsChosen segments parts components)
    (areParts : ∀ part ∈ parts.dropLast, Text.IsPart separator part.toList)
    (plain : ¬ Text.BlursMembers separator ∨
      ∀ segment ∈ segments.dropLast, segment.repeating = false) :
    ∀ component ∈ components.dropLast, Text.IsPart separator component.toList := by
  induction segments generalizing parts components with
  | nil => simp [chosen.eq_nil]
  | cons segment segments ih =>
      obtain ⟨part, others, value, values, rfl, rfl, member, rest⟩ := cons_iff.mp chosen
      by_cases last : segments = []
      · subst last
        simp [rest.eq_nil]
      · have more : values ≠ [] := by
          rintro rfl
          exact last (List.eq_nil_of_length_eq_zero rest.length_eq.symm)
        have moreParts : others ≠ [] := by
          rintro rfl
          exact last (List.eq_nil_of_length_eq_zero rest.count.symm)
        rw [List.dropLast_cons_of_ne_nil moreParts, List.forall_mem_cons] at areParts
        rw [List.dropLast_cons_of_ne_nil last, List.forall_mem_cons] at plain
        rw [List.dropLast_cons_of_ne_nil more, List.forall_mem_cons]
        refine ⟨?_, ih rest areParts.2 (plain.imp_right fun single => single.2)⟩
        by_cases repeating : segment.repeating
        · have apart := plain.resolve_right fun single => by simp [single.1] at repeating
          have piece : value ∈ listMembers part := by
            rwa [KeySegment.values, if_pos repeating] at member
          exact isPart_of_mem_listMembers apart filled areParts.1 piece
        · rw [KeySegment.values, if_neg repeating, List.mem_singleton] at member
          rw [member]
          exact areParts.1

end IsChosen

/-- The components of the list instances that a row key stands for. -/
theorem isChosen_of_expandKey (named : table.segments ≠ []) {rowKey : String}
    {combinations : List (List String)} (expanded : table.expandKey rowKey = .ok combinations)
    {components : List String} (member : components ∈ combinations) :
    ∃ parts, table.splitKey rowKey = some parts ∧ IsChosen table.segments parts components := by
  obtain ⟨parts, split, _, rfl⟩ := expandKey_eq_ok_iff.mp expanded
  exact ⟨parts, split, (splitKey_sound named split).1, mem_choices_iff.mp member⟩

/-- A row key stands for some list instance. -/
theorem exists_mem_of_expandKey {rowKey : String} {combinations : List (List String)}
    (expanded : table.expandKey rowKey = .ok combinations) :
    ∃ components, components ∈ combinations := by
  obtain ⟨parts, _, filled, rfl⟩ := expandKey_eq_ok_iff.mp expanded
  exact exists_mem_choices filled

/-- A row that is translated has a key that the table expands, and its list instances are there. -/
theorem expands_of_rowsNodes {rows : KeyedRows} {nodes : Forest Unit}
    (translated : table.rowsNodes rows = .ok nodes) {rowKey : String} {fields : Fields}
    (row : rows[rowKey]? = some fields) :
    ∃ combinations, table.expandKey rowKey = .ok combinations ∧
      ∀ components ∈ combinations, table.instanceNode fields components ∈ nodes := by
  obtain ⟨each, mapped, rfl⟩ := Except.map_eq_ok_iff.mp translated
  obtain ⟨instances, inside, own⟩ := Except.exists_of_mem_left (Except.mapM_eq_ok_iff.mp mapped)
    (Std.ExtTreeMap.mem_toList_iff_getElem?_eq_some.mpr row)
  obtain ⟨combinations, expanded, rfl⟩ := Except.map_eq_ok_iff.mp own
  exact ⟨combinations, expanded, fun components chosen =>
    List.mem_flatten.mpr ⟨_, inside, List.mem_map.mpr ⟨components, chosen, rfl⟩⟩⟩

/-- The key of a list instance stands for the instance alone, if it splits back into its components. -/
theorem expandKey_instanceKey_of_split (named : table.segments ≠ []) {rowKey : String}
    {combinations : List (List String)} (expanded : table.expandKey rowKey = .ok combinations)
    {components : List String} (member : components ∈ combinations)
    (split : table.splitKey (table.instanceKey components) = some components) :
    table.expandKey (table.instanceKey components) = .ok [components] := by
  obtain ⟨parts, _, chosen⟩ := isChosen_of_expandKey named expanded member
  have values : table.componentValues components = components.map fun component => [component] :=
    chosen.values_eq
  refine expandKey_eq_ok_iff.mpr ⟨components, split, ?_, ?_⟩
  · rw [values]
    simp
  · rw [values, choices_singletons]

/-- The key of a list instance stands for the instance alone, if its components are cut off as
such. -/
theorem expandKey_instanceKey (named : table.segments ≠ []) {rowKey : String}
    {combinations : List (List String)} (expanded : table.expandKey rowKey = .ok combinations)
    {components : List String} (member : components ∈ combinations)
    (areParts : ∀ component ∈ components.dropLast,
      Text.IsPart table.keyDelimiter.toList component.toList) :
    table.expandKey (table.instanceKey components) = .ok [components] := by
  obtain ⟨parts, split, chosen⟩ := isChosen_of_expandKey named expanded member
  obtain ⟨_, filled, _, _⟩ := splitKey_sound named split
  exact expandKey_instanceKey_of_split named expanded member
    (splitKey_instanceKey chosen.length_eq named (chosen.ne_empty filled) areParts)

/-- Whether the key of each list instance of a row splits back into the components it is joined from. -/
def SplitsBack (table : TableSchema) (rowKey : String) : Prop :=
  ∀ combinations, table.expandKey rowKey = .ok combinations →
    ∀ components ∈ combinations, table.splitKey (table.instanceKey components) = some components

instance (rowKey : String) : Decidable (table.SplitsBack rowKey) :=
  match expanded : table.expandKey rowKey with
  | .error _ => isTrue fun _ found => by simp [expanded] at found
  | .ok combinations =>
    decidable_of_iff (∀ components ∈ combinations,
      table.splitKey (table.instanceKey components) = some components)
      (by simp only [SplitsBack, expanded, Except.ok.injEq, forall_eq'])

/-- Whether the key of each list instance of a row is itself the key of a row. -/
def Rejoins (table : TableSchema) (rowKey : String) : Prop :=
  ∀ combinations, table.expandKey rowKey = .ok combinations →
    ∀ components ∈ combinations, ∃ again,
      table.expandKey (table.instanceKey components) = .ok again

instance (rowKey : String) : Decidable (table.Rejoins rowKey) :=
  match expanded : table.expandKey rowKey with
  | .error _ => isTrue fun _ found => by simp [expanded] at found
  | .ok combinations =>
    decidable_of_iff (∀ components ∈ combinations,
      (table.expandKey (table.instanceKey components)).isOk) (by
        have isOk_iff : ∀ step : Except Rejection (List (List String)),
            step.isOk = true ↔ ∃ answer, step = .ok answer := by
          intro step
          cases step <;> simp [Except.isOk, Except.toBool]
        simp only [isOk_iff, Rejoins, expanded, Except.ok.injEq, forall_eq'])

/-- Whether keys are cut where they were joined: no component but the last one repeats, or its members do
not blur the delimiter. -/
def CutsAsJoined (table : TableSchema) : Prop :=
  (∀ segment ∈ table.segments.dropLast, segment.repeating = false) ∨
    ¬ Text.BlursMembers table.keyDelimiter.toList

instance (table : TableSchema) : Decidable table.CutsAsJoined :=
  inferInstanceAs (Decidable (_ ∨ _))

/-- Whether the keys of list instances are cut where they were joined: the delimiter does not overlap
itself, or no component but the last one repeats. -/
def JoinsPlainly (table : TableSchema) : Prop :=
  ¬ Text.OverlapsItself table.keyDelimiter.toList ∨
    ∀ segment ∈ table.segments.dropLast, segment.repeating = false

private theorem JoinsPlainly.cutsAsJoined (joins : table.JoinsPlainly) : table.CutsAsJoined :=
  joins.symm.imp_right fun plain ⟨_, early, _⟩ => plain early.overlapsItself

section Expanded

variable (sound : table.IsSound) {rowKey : String} {combinations : List (List String)}
  (expanded : table.expandKey rowKey = .ok combinations) {components : List String}
  (member : components ∈ combinations)

include sound expanded member

/-- In a table that cuts keys as it joined them, the components of a list instance are cut off as such. -/
theorem CutsAsJoined.areParts (cuts : table.CutsAsJoined) : ∀ component ∈ components.dropLast,
    Text.IsPart table.keyDelimiter.toList component.toList := by
  obtain ⟨parts, split, chosen⟩ := isChosen_of_expandKey sound.named expanded member
  obtain ⟨_, _, areParts, _⟩ := splitKey_sound sound.named split
  exact chosen.areParts sound.delimiter_ne_nil areParts cuts.symm

/-- In a table that joins plainly, the key of a list instance stands for the instance alone. -/
theorem JoinsPlainly.expandKey_instanceKey (joins : table.JoinsPlainly) :
    table.expandKey (table.instanceKey components) = .ok [components] :=
  TableSchema.expandKey_instanceKey sound.named expanded member
    (joins.cutsAsJoined.areParts sound expanded member)

end Expanded

/-- In a table that joins plainly, every row can be patched in documents. -/
theorem JoinsPlainly.rejoins (joins : table.JoinsPlainly) (sound : table.IsSound)
    (rowKey : String) : table.Rejoins rowKey :=
  fun _ expanded components member =>
    ⟨[components], joins.expandKey_instanceKey sound expanded member⟩

end TableSchema

end ConfigVetting
