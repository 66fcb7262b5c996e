import ConfigVetting.Proofs.Document.Accepted
import ConfigVetting.Proofs.Schema.References

/-! # The values of rows

The values of a row are known in two ways: as its list instances give them, and as they are read off the
row where deletes are checked. For a leaf that is read plainly these are the same
(`ConfigVetting.TableSchema.ReadsPlainly.mem_rowValues_iff`).
-/

namespace ConfigVetting

namespace TableSchema

variable {table : TableSchema} {rowKey field value : String} {fields : Fields}

/-- Whether a list instance of a row gives a leaf a value. -/
def RowGives (table : TableSchema) (rowKey : String) (fields : Fields) (field value : String) : Prop :=
  ∃ nodes, table.rowNodes rowKey fields = .ok nodes ∧ ∃ node ∈ nodes, table.Gives node field value

/-- Whether the values of a leaf are read off a row as its list instances give them. -/
structure ReadsPlainly (table : TableSchema) (rowKey : String) (fields : Fields) (field : String) :
    Prop where
  expands : (table.expandKey rowKey).isOk
  single : ∀ part ∈ table.segments.zip ((table.splitKey rowKey).getD []), part.1.name = field →
    part.1.repeating = true ∨ listMembers part.2 = [part.2]
  entries : table.mapLeaves = none ∨
    table.isKey field = true ∧ table.mapLeaves.map Prod.snd ≠ some field
  spelled : table.isKey field = false → field ≠ placeholder ∧ Text.beforeLast listMark field = none
  filled : table.isKey field = false → table.isLeafList field = false → fields[field]? ≠ some ""

instance : Decidable (table.ReadsPlainly rowKey fields field) :=
  decidable_of_iff (_ ∧ _ ∧ _ ∧ _ ∧ _)
    ⟨fun ⟨expands, single, entries, spelled, filled⟩ => ⟨expands, single, entries, spelled, filled⟩,
      fun ⟨expands, single, entries, spelled, filled⟩ => ⟨expands, single, entries, spelled, filled⟩⟩

private theorem rowGives_iff : table.RowGives rowKey fields field value ↔
    table.Says rowKey fields field value ∨
      (∃ nameLeaf, table.mapLeaves = some (nameLeaf, field)) ∧
        table.Enters rowKey fields field value := by
  unfold RowGives rowNodes Says Enters Gives
  simp only [Except.map_eq_ok_iff]
  constructor
  · rintro ⟨_, ⟨combinations, expanded, rfl⟩, node, inside, given⟩
    obtain ⟨components, chosen, rfl⟩ := List.mem_map.mp inside
    rcases given with direct | ⟨nameLeaf, mapped, entered⟩
    · exact Or.inl ⟨combinations, expanded, components, chosen, direct⟩
    · exact Or.inr ⟨⟨nameLeaf, mapped⟩, combinations, expanded, components, chosen, entered⟩
  · rintro (⟨combinations, expanded, components, chosen, direct⟩ |
      ⟨⟨nameLeaf, mapped⟩, combinations, expanded, components, chosen, entered⟩)
    · exact ⟨_, ⟨combinations, expanded, rfl⟩, _, List.mem_map_of_mem chosen, Or.inl direct⟩
    · exact ⟨_, ⟨combinations, expanded, rfl⟩, _, List.mem_map_of_mem chosen,
        Or.inr ⟨nameLeaf, mapped, entered⟩⟩

/-- The values of a leaf that is no component of the key are those that fields give. -/
theorem says_iff_of_notKey {combinations : List (List String)}
    (expanded : table.expandKey rowKey = .ok combinations) (notKey : table.isKey field = false) :
    table.Says rowKey fields field value ↔
      ∃ name text, fields[name]? = some text ∧ value ∈ table.textValues name text field := by
  constructor
  · rintro ⟨_, _, components, _, member⟩
    refine (mem_leafValues_instanceNode_iff.mp member).resolve_left fun own => ?_
    rw [isKey, List.contains_iff_mem.mpr (List.of_mem_zip own).1] at notKey
    cases notKey
  · intro given
    obtain ⟨components, chosen⟩ := exists_mem_of_expandKey expanded
    exact ⟨combinations, expanded, components, chosen, mem_leafValues_instanceNode_iff.mpr (Or.inr given)⟩

/-- The values that a field gives the leaf of its plain name. -/
theorem mem_textValues_iff {name text : String} (noEntries : table.mapLeaves = none)
    (real : name ≠ placeholder) (notKey : table.isKey (baseName name) = false) :
    value ∈ table.textValues name text (baseName name) ↔
      if (Text.beforeLast listMark name).isSome || table.isLeafList name then
        value ∈ (listMembers text).map referenced
      else value = referenced text := by
  change table.isKey ((Text.beforeLast listMark name).getD name) = false at notKey
  rw [textValues, Node.mem_leafValues_iff]
  change (∃ child ∈ table.fieldNodes name text, _) ↔ _
  simp only [fieldNodes, if_neg real, noEntries, notKey, Bool.false_eq_true, ↓reduceIte]
  split
  · constructor
    · rintro ⟨child, inside, _, _, held⟩
      obtain ⟨member, listed, rfl⟩ := List.mem_map.mp inside
      cases held
      exact List.mem_map_of_mem listed
    · intro inside
      obtain ⟨member, listed, rfl⟩ := List.mem_map.mp inside
      exact ⟨_, List.mem_map_of_mem listed, rfl, Or.inr rfl, rfl⟩
  · constructor
    · rintro ⟨child, inside, _, _, held⟩
      cases List.mem_singleton.mp inside
      cases held
      rfl
    · rintro rfl
      exact ⟨_, List.mem_singleton_self _, rfl, Or.inl rfl, rfl⟩

/-- The values that are read off the fields of a row are those that one of them gives. -/
theorem mem_fieldValues_iff (noEntries : table.mapLeaves = none) (notKey : table.isKey field = false)
    (real : field ≠ placeholder) (unmarked : Text.beforeLast listMark field = none)
    (filled : table.isLeafList field = false → fields[field]? ≠ some "") :
    value ∈ DeleteIntegrity.fieldValues table fields field ↔
      ∃ name text, fields[name]? = some text ∧ value ∈ table.textValues name text field := by
  constructor
  · intro member
    rcases List.mem_append.mp member with plain | listed
    · have own := baseName_of_unmarked unmarked
      cases held : fields[field]? with
      | none => simp [held] at plain
      | some text =>
          have given := @mem_textValues_iff table value field text noEntries real (own.symm ▸ notKey)
          rw [own, unmarked] at given
          refine ⟨field, text, held, given.mpr ?_⟩
          cases isList : table.isLeafList field with
          | true => simpa [held, isList] using plain
          | false =>
              have nonempty : text ≠ "" := fun blank => filled isList (blank ▸ held)
              simpa [held, isList, nonempty] using plain
    · cases held : fields[listSpelling field]? with
      | none => simp [held] at listed
      | some text =>
          have real : listSpelling field ≠ placeholder := fun same => by
            have marked := Text.beforeLast_eq_some_iff.mpr (same.symm : placeholder = field.push listMark)
            cases marked.symm.trans (by decide : Text.beforeLast listMark placeholder = none)
          have given := @mem_textValues_iff table value (listSpelling field) text noEntries real
            ((baseName_listSpelling field).symm ▸ notKey)
          rw [baseName_listSpelling, Text.beforeLast_eq_some_iff.mpr (rfl : listSpelling field = _)] at given
          refine ⟨listSpelling field, text, held, given.mpr ?_⟩
          simpa [held] using listed
  · rintro ⟨name, text, held, member⟩
    exact mem_fieldValues held member fun single blank => absurd blank (filled single)

namespace ReadsPlainly

/-- A component of the key that is read plainly stands for its members. -/
theorem values_eq {segment : KeySegment} (plain : table.ReadsPlainly rowKey fields segment.name)
    {parts : List String} (split : table.splitKey rowKey = some parts) {component : String}
    (own : (segment, component) ∈ table.segments.zip parts) :
    segment.values component = listMembers component := by
  unfold KeySegment.values
  by_cases repeating : segment.repeating = true
  · rw [if_pos repeating]
  · have single := plain.single (segment, component) (by rwa [split]) rfl
    rw [if_neg repeating, single.resolve_left repeating]

/-- **Plain reading.** The values that are read plainly off a row are those that its list instances
give. -/
theorem mem_rowValues_iff (plain : table.ReadsPlainly rowKey fields field) (sound : table.IsSound) :
    value ∈ DeleteIntegrity.rowValues table field rowKey fields ↔
      table.RowGives rowKey fields field value := by
  obtain ⟨combinations, expanded⟩ := Except.exists_of_isOk plain.expands
  have noEntry : ¬ ∃ nameLeaf, table.mapLeaves = some (nameLeaf, field) := by
    rintro ⟨nameLeaf, mapped⟩
    rcases plain.entries with none | ⟨_, other⟩
    · cases none.symm.trans mapped
    · exact other (by rw [mapped]; rfl)
  rw [rowGives_iff, or_iff_left fun entered => noEntry entered.1]
  unfold DeleteIntegrity.rowValues
  cases isKey : table.isKey field with
  | true =>
      obtain ⟨position, placed⟩ := exists_keyPosition? isKey
      rw [placed]
      simp only
      rw [mem_keyValues_iff sound placed]
      constructor
      · rintro ⟨parts, segment, component, split, own, rfl, member⟩
        refine (keyHolds_of_mem_values expanded split own ?_).isSaid fields
        rwa [plain.values_eq split own]
      · intro said
        obtain ⟨parts, segment, component, split, own, rfl, member⟩ :=
          (said.keyHolds isKey).exists_part sound.named
        rw [plain.values_eq split own] at member
        exact ⟨parts, segment, component, split, own, rfl, member⟩
  | false =>
      rw [keyPosition?_eq_none isKey]
      simp only
      obtain ⟨real, unmarked⟩ := plain.spelled isKey
      have noEntries : table.mapLeaves = none := plain.entries.resolve_right fun key => by
        rw [isKey] at key
        cases key.1
      rw [mem_fieldValues_iff noEntries isKey real unmarked (plain.filled isKey),
        says_iff_of_notKey expanded isKey]

end ReadsPlainly

end TableSchema

end ConfigVetting
