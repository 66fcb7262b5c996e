import ConfigVetting.Proofs.Text.Ends
import ConfigVetting.Staging.Patch

/-! # The two spellings of a field

A field is known by its plain name; a row may hold it under that name or under the list spelling of
it. For a name that carries the list mark at most once, two names belong to one field exactly if
their plain names agree (`ConfigVetting.baseName_eq_iff`), so that taking a field out of a row takes
out the names of that field and no others (`ConfigVetting.Fields.getElem?_without`).
-/

namespace ConfigVetting

/-- Whether a name carries the list mark at most once at its end. -/
def IsMarkedOnce (name : String) : Prop :=
  ∀ stem, name ≠ listSpelling (listSpelling stem)

/-- A name without the mark is its own plain name. -/
theorem baseName_of_unmarked {name : String} (unmarked : Text.beforeLast listMark name = none) :
    baseName name = name := by
  rw [baseName, unmarked]
  rfl

/-- A name that is its own plain name does not carry the mark. -/
theorem beforeLast_eq_none {name : String} (plain : baseName name = name) :
    Text.beforeLast listMark name = none := by
  cases marked : Text.beforeLast listMark name with
  | none => rfl
  | some before =>
      rw [baseName, marked, Option.getD_some] at plain
      have longer := congrArg String.length (Text.beforeLast_eq_some_iff.mp marked)
      rw [plain, String.length_push] at longer
      omega

@[simp]
theorem baseName_listSpelling (name : String) : baseName (listSpelling name) = name := by
  rw [baseName, Text.beforeLast_eq_some_iff.mpr (rfl : listSpelling name = name.push listMark)]
  rfl

/-- A name is one of the two spellings of its plain name. -/
theorem eq_baseName_or_eq_listSpelling (name : String) :
    name = baseName name ∨ name = listSpelling (baseName name) := by
  cases split : Text.beforeLast listMark name with
  | none => exact Or.inl (baseName_of_unmarked split).symm
  | some before =>
      have spelled : name = before.push listMark := Text.beforeLast_eq_some_iff.mp split
      right
      rw [baseName, split, Option.getD_some]
      exact spelled

/-- A name is marked at most once exactly if its plain name is not marked. -/
theorem isMarkedOnce_iff {name : String} :
    IsMarkedOnce name ↔ Text.beforeLast listMark (baseName name) = none := by
  rw [Option.eq_none_iff_forall_ne_some]
  refine ⟨fun once stem twice => ?_, fun unmarked stem twice => ?_⟩
  · rcases eq_baseName_or_eq_listSpelling name with same | listed
    · rw [← same, beforeLast_eq_none same.symm] at twice
      cases twice
    · have plain : baseName name = listSpelling stem := Text.beforeLast_eq_some_iff.mp twice
      exact once stem (plain ▸ listed)
  · exact unmarked stem (Text.beforeLast_eq_some_iff.mpr (by rw [twice, baseName_listSpelling]; rfl))

instance (name : String) : Decidable (IsMarkedOnce name) :=
  decidable_of_iff _ isMarkedOnce_iff.symm

/-- A name that is marked at most once has a plain name without a mark. -/
theorem IsMarkedOnce.baseName_baseName {name : String} (once : IsMarkedOnce name) :
    baseName (baseName name) = baseName name :=
  baseName_of_unmarked (isMarkedOnce_iff.mp once)

/-- The names of the field of a name marked at most once are the two spellings of its plain name. -/
theorem baseName_eq_iff {name other : String} (once : IsMarkedOnce name) :
    baseName other = baseName name ↔
      other = baseName name ∨ other = listSpelling (baseName name) := by
  constructor
  · intro same
    rw [← same]
    exact eq_baseName_or_eq_listSpelling other
  · rintro (rfl | rfl)
    · exact once.baseName_baseName
    · exact baseName_listSpelling _

/-- Whether two names are spellings of one field: each is its plain name, which is not marked, or the list
spelling of that. -/
def SpellsAlike (name other : String) : Prop :=
  ∃ plain, (∀ stem, plain ≠ listSpelling stem) ∧ (name = plain ∨ name = listSpelling plain) ∧
    (other = plain ∨ other = listSpelling plain)

/-- Both spellings of a plain name belong to it. -/
theorem baseName_of_spelled {plain name : String} (unmarked : ∀ stem, plain ≠ listSpelling stem)
    (spelled : name = plain ∨ name = listSpelling plain) : baseName name = plain := by
  rcases spelled with rfl | rfl
  · exact baseName_of_unmarked (Option.eq_none_iff_forall_ne_some.mpr fun stem marked =>
      unmarked stem (Text.beforeLast_eq_some_iff.mp marked))
  · exact baseName_listSpelling _

/-- Two names are spellings of one field exactly if their plain names agree and are not marked. -/
theorem spellsAlike_iff {name other : String} :
    SpellsAlike name other ↔ IsMarkedOnce other ∧ baseName name = baseName other := by
  constructor
  · rintro ⟨plain, unmarked, own, others⟩
    have marked := baseName_of_spelled unmarked others
    refine ⟨fun stem twice => ?_, (baseName_of_spelled unmarked own).trans marked.symm⟩
    rw [twice, baseName_listSpelling] at marked
    exact unmarked stem marked.symm
  · rintro ⟨once, same⟩
    refine ⟨baseName other, fun stem marked => ?_, (baseName_eq_iff once).mp same,
      eq_baseName_or_eq_listSpelling other⟩
    have plain := once.baseName_baseName
    rw [marked, baseName_listSpelling] at plain
    exact absurd (congrArg String.length plain) (by simp [listSpelling])

instance (name other : String) : Decidable (SpellsAlike name other) :=
  decidable_of_iff _ spellsAlike_iff.symm

/-- A name stands before its list spelling. -/
theorem compare_listSpelling (base : String) : compare base (listSpelling base) = .lt := by
  have longer : ∀ text : List Char, text < text ++ [listMark] := by
    intro text
    induction text with
    | nil => exact List.nil_lt_cons _ _
    | cons c text ih => exact List.cons_lt_cons_iff.mpr (Or.inr ⟨rfl, ih⟩)
  have less : base < listSpelling base := by
    rw [String.lt_iff, listSpelling, String.toList_push]
    exact longer base.toList
  exact compareOfLessAndEq_eq_lt.mpr less

namespace Fields

/-- Taking a field out of a row takes out its two spellings. -/
theorem getElem?_without_eq (fields : Fields) (name other : String) :
    (fields.without name)[other]? =
      if other = baseName name ∨ other = listSpelling (baseName name) then none
      else fields[other]? := by
  simp only [without, Std.ExtTreeMap.getElem?_erase, Std.LawfulEqCmp.compare_eq_iff_eq]
  by_cases listed : listSpelling (baseName name) = other
  · simp [listed]
  · by_cases plain : baseName name = other
    · simp [plain]
    · simp [listed, plain, Ne.symm listed, Ne.symm plain]

/-- Taking a field out of a row takes out the names of that field. -/
theorem getElem?_without {name : String} (fields : Fields) (once : IsMarkedOnce name)
    (other : String) :
    (fields.without name)[other]? =
      if baseName other = baseName name then none else fields[other]? := by
  simp only [getElem?_without_eq, baseName_eq_iff once]

/-- Setting a field leaves the other fields and one name of its own. -/
theorem getElem?_set {name : String} (fields : Fields) (value : String) (once : IsMarkedOnce name)
    (other : String) :
    (fields.set name value)[other]? =
      if other = name then some value
      else if baseName other = baseName name then none else fields[other]? := by
  simp only [set, Std.ExtTreeMap.getElem?_insert, Std.LawfulEqCmp.compare_eq_iff_eq,
    getElem?_without fields once, eq_comm (a := name)]

/-- Fields are some exactly if there is a name beside the placeholder. -/
theorem areNone_eq_false_iff {fields : Fields} :
    fields.areNone = false ↔ ∃ name, name ∈ fields ∧ name ≠ placeholder := by
  simp [areNone]

end Fields

end ConfigVetting
