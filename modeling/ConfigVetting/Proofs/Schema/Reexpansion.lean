import ConfigVetting.Proofs.Schema.RowKeys

/-! # Keys of list instances as row keys

The key of a list instance is joined from one member of each component of a row key. Read as a row key, it
stands for that instance alone as long as it is cut where it was joined. It is cut earlier if a component
before the last one ends in a text after which the delimiter starts within itself, as one bar does before
two. Parts of a row key have no such end, but members of a part that repeats may have one. The main
statement says for which list instances, and for which tables, that happens
(`ConfigVetting.Schema.reexpands_iff`).
-/

namespace ConfigVetting

namespace TableSchema

variable {table : TableSchema} {rowKey : String} {combinations : List (List String)}
  {components : List String}

/-- Whether the key of a list instance, read as a row key, stands for that instance alone. -/
def Reexpands (table : TableSchema) (components : List String) : Prop :=
  table.splitKey (table.instanceKey components) = some components ∧
    table.expandKey (table.instanceKey components) = .ok [components]

/-- The components of a list instance are pieces of the parts of its row key. -/
theorem IsChosen.forall₂_infix {segments : List KeySegment} {parts : List String}
    (chosen : IsChosen segments parts components) :
    List.Forall₂ (fun component part => component.toList <:+: part.toList) components parts := by
  induction segments generalizing parts components with
  | nil =>
      rw [List.eq_nil_of_length_eq_zero chosen.length_eq, List.eq_nil_of_length_eq_zero chosen.count]
      exact .nil
  | cons segment segments ih =>
      obtain ⟨part, others, value, values, rfl, rfl, member, rest⟩ := cons_iff.mp chosen
      refine .cons ?_ (ih rest)
      unfold KeySegment.values at member
      by_cases repeating : segment.repeating
      · rw [if_pos repeating] at member
        exact infix_of_mem_listMembers member
      · rw [if_neg repeating, List.mem_singleton] at member
        rw [member]

section Expanded

variable (sound : table.IsSound) (expanded : table.expandKey rowKey = .ok combinations)
  (member : components ∈ combinations)

include sound expanded member

/-- A list instance is read back from its key exactly if its components are cut off as such. -/
theorem reexpands_iff_isPart : table.Reexpands components ↔
    ∀ component ∈ components.dropLast, Text.IsPart table.keyDelimiter.toList component.toList := by
  constructor
  · rintro ⟨split, _⟩
    exact (splitKey_sound sound.named split).2.2.1
  · intro areParts
    obtain ⟨parts, split, chosen⟩ := isChosen_of_expandKey sound.named expanded member
    obtain ⟨_, filled, _, _⟩ := splitKey_sound sound.named split
    exact ⟨splitKey_instanceKey chosen.length_eq sound.named (chosen.ne_empty filled) areParts,
      expandKey_instanceKey sound.named expanded member areParts⟩

/-- No component of a list instance but the last holds the delimiter. -/
theorem not_infix_of_mem_dropLast : ∀ component ∈ components.dropLast,
    ¬ table.keyDelimiter.toList <:+: component.toList := by
  intro component inside held
  obtain ⟨parts, split, chosen⟩ := isChosen_of_expandKey sound.named expanded member
  obtain ⟨count, _, areParts, _⟩ := splitKey_sound sound.named split
  have pieces : List.Forall₂ (fun component part => component.toList <:+: part.toList)
      components.dropLast parts.dropLast := by
    rw [List.dropLast_eq_take, List.dropLast_eq_take, chosen.length_eq, count]
    exact List.forall₂_take _ chosen.forall₂_infix
  obtain ⟨part, listed, piece⟩ := Except.exists_of_mem_left pieces inside
  exact Text.not_infix_of_isPart sound.delimiter_ne_nil (areParts part listed) (held.trans piece)

/-- A list instance is read back from its key exactly if no component but the last ends in a text that
anticipates the delimiter. -/
theorem reexpands_iff_not_anticipates : table.Reexpands components ↔
    ∀ component ∈ components.dropLast, ∀ start, start <:+ component.toList →
      ¬ Text.Anticipates start table.keyDelimiter.toList := by
  rw [reexpands_iff_isPart sound expanded member]
  refine forall₂_congr fun component inside => ?_
  exact Text.isPart_iff_not_anticipates (not_infix_of_mem_dropLast sound expanded member component inside)

private theorem CutsAsJoined.reexpands (cuts : table.CutsAsJoined) : table.Reexpands components :=
  (reexpands_iff_isPart sound expanded member).mpr (cuts.areParts sound expanded member)

end Expanded

/-- Parts that all list one member stand for the list instance of that member. -/
theorem isChosen_replicate (segments : List KeySegment) {part member : String}
    (alone : listMembers part = [member]) :
    IsChosen segments (List.replicate segments.length part)
      (segments.map fun segment => if segment.repeating then member else part) := by
  induction segments with
  | nil => exact ⟨rfl, .nil⟩
  | cons segment segments ih =>
      refine IsChosen.cons_iff.mpr ⟨_, _, _, _, rfl, rfl, ?_, ih⟩
      rw [KeySegment.values, alone]
      by_cases repeating : segment.repeating
      · simp [repeating]
      · simp [repeating]

/-- If members blur the delimiter of a table and a component before the last one repeats, some row key of it
stands for a list instance that is not read back from its key. -/
theorem exists_not_reexpands (sound : table.IsSound) (blurred : ¬ table.CutsAsJoined) :
    ∃ rowKey combinations, table.expandKey rowKey = .ok combinations ∧
      ∃ components ∈ combinations, ¬ table.Reexpands components := by
  unfold CutsAsJoined at blurred
  push Not at blurred
  obtain ⟨⟨segment, early, repeats⟩, blurs⟩ := blurred
  obtain ⟨member, alone, isPart, notPart⟩ := blurs.exists_member
  -- Every part of the row key is the list of that one member.
  let parts := List.replicate table.segments.length (member ++ ",")
  have split : table.splitKey (table.instanceKey parts) = some parts := by
    refine splitKey_instanceKey List.length_replicate sound.named ?_ ?_
    · intro part listed
      rw [List.eq_of_mem_replicate listed]
      simp
    · intro part listed
      rw [List.eq_of_mem_replicate (List.dropLast_subset _ listed)]
      exact isPart
  have chosen := mem_choices_iff.mpr (isChosen_replicate table.segments alone).chosen
  have expanded : table.expandKey (table.instanceKey parts) = .ok (choices (table.componentValues parts)) :=
    expandKey_eq_ok_iff.mpr ⟨parts, split, nil_notMem_of_mem_choices chosen, rfl⟩
  refine ⟨_, _, expanded, _, chosen, fun again => notPart ?_⟩
  refine (reexpands_iff_isPart sound expanded chosen).mp again member ?_
  rw [← List.map_dropLast]
  exact List.mem_map.mpr ⟨segment, early, if_pos (Bool.of_not_eq_false repeats)⟩

end TableSchema

namespace Schema

/-- **Keys of list instances as row keys.** In a table of a schema that was built, a list instance of a row
is read back from its key, alone and with its own components, exactly if no component but the last ends in a
text that anticipates the delimiter. This holds for the list instances of all rows exactly if the table cuts
keys as it joined them. -/
theorem reexpands_iff [PatternReader] {modules : List ModuleDecl} {delimiter : String} {schema : Schema}
    (built : build modules delimiter = .ok schema) {name : String} {table : TableSchema}
    (known : schema.table? name = some table) :
    (∀ rowKey combinations, table.expandKey rowKey = .ok combinations → ∀ components ∈ combinations,
      (table.Reexpands components ↔ ∀ component ∈ components.dropLast, ∀ start,
        start <:+ component.toList → ¬ Text.Anticipates start table.keyDelimiter.toList)) ∧
    ((∀ rowKey combinations, table.expandKey rowKey = .ok combinations →
      ∀ components ∈ combinations, table.Reexpands components) ↔ table.CutsAsJoined) := by
  have sound := (isSound_of_build built name table known).2
  refine ⟨fun rowKey combinations expanded components member =>
    TableSchema.reexpands_iff_not_anticipates sound expanded member, ?_⟩
  constructor
  · intro all
    by_contra blurred
    obtain ⟨rowKey, combinations, expanded, components, member, lost⟩ :=
      TableSchema.exists_not_reexpands sound blurred
    exact lost (all rowKey combinations expanded components member)
  · exact fun cuts rowKey combinations expanded components member =>
      cuts.reexpands sound expanded member

/-- A table of lanes, whose delimiter overlaps itself in a blank. -/
def laneModules : List ModuleDecl := [{ name := "m", tables := [
  { name := "LANE", keyPattern := "LANE- -(\x7bports\x7d,)*- -\x7blane\x7d", keyDelimiter := some "- -" }] }]

/-- No port ends in the blank, so all lanes are read back from their keys. -/
theorem reexpands_lanes : ∃ schema table, build laneModules usualDelimiter = .ok schema ∧
    schema.table? "LANE" = some table ∧ table.expandKey "a-,b- -y" = .ok [["a-", "y"], ["b", "y"]] ∧
      table.Reexpands ["a-", "y"] ∧ ∀ rowKey combinations, table.expandKey rowKey = .ok combinations →
        ∀ components ∈ combinations, table.Reexpands components := by
  have built := build_eq_ofModules
    (show (build laneModules usualDelimiter).isOk by decide +kernel)
  have facts : ((ofModules laneModules).table? "LANE").any fun table => table.CutsAsJoined ∧
      (table.expandKey "a-,b- -y").toOption = some [["a-", "y"], ["b", "y"]] := by
    decide +kernel
  obtain ⟨table, known, held⟩ := (Option.any_eq_true _ _).mp facts
  obtain ⟨cuts, found⟩ := of_decide_eq_true held
  have expanded := Except.toOption_eq_some_iff.mp found
  have all := (reexpands_iff built known).2.mpr cuts
  exact ⟨_, table, built, known, expanded, all _ _ expanded _ List.mem_cons_self, all⟩

/-- A table of rows whose delimiter is two bars, between a component that repeats and a single one. -/
def barModules : List ModuleDecl := [{ name := "m", tables := [
  { name := "T", keyPattern := "T||(\x7ba\x7d,)*||\x7bb\x7d", keyDelimiter := some "||" }] }]

/-- A member that is a bar lends it to the delimiter, so the key of its list instance is no row key. -/
theorem not_reexpands_bars : ∃ schema table, build barModules usualDelimiter = .ok schema ∧
    schema.table? "T" = some table ∧ table.expandKey "|,b||y" = .ok [["|", "y"], ["b", "y"]] ∧
      table.instanceKey ["|", "y"] = "|||y" ∧ table.splitKey "|||y" = none ∧
      (table.expandKey "|||y").isOk = false := by
  have built := build_eq_ofModules
    (show (build barModules usualDelimiter).isOk by decide +kernel)
  have facts : ((ofModules barModules).table? "T").any fun table =>
      (table.expandKey "|,b||y").toOption = some [["|", "y"], ["b", "y"]] ∧
      table.instanceKey ["|", "y"] = "|||y" ∧ table.splitKey "|||y" = none ∧
      (table.expandKey "|||y").isOk = false := by
    decide +kernel
  obtain ⟨table, known, held⟩ := (Option.any_eq_true _ _).mp facts
  obtain ⟨expanded, lost⟩ := of_decide_eq_true held
  exact ⟨_, table, built, known, Except.toOption_eq_some_iff.mp expanded, lost⟩

end Schema

end ConfigVetting
