import ConfigVetting.Proofs.Staging.Spelling

/-! # Laying fields over rows

A row changes field by field: a field is taken out in both spellings, or put in place of both of
them. What such changes leave under a name depends only on the fields of that name
(`ConfigVetting.Fields.getElem?_laid_filter`). A patch takes out its removed fields and lays its set
fields over what is left (`ConfigVetting.Patch.apply_eq`). The placeholder of a row without fields
is never put, so rows are compared up to it (`ConfigVetting.Fields.SameFields`).
-/

namespace ConfigVetting

namespace Fields

/-- Whether two rows hold the same fields, the placeholder apart. -/
def SameFields (first second : Fields) : Prop :=
  ∀ name, name ≠ placeholder → first[name]? = second[name]?

theorem SameFields.refl (fields : Fields) : fields.SameFields fields :=
  fun _ _ => rfl

theorem SameFields.trans {first second third : Fields} (left : first.SameFields second)
    (right : second.SameFields third) : first.SameFields third :=
  fun name named => (left name named).trans (right name named)

/-- A row with one field put in place of its two spellings. The placeholder is not put, and goes
once another field is. -/
def put (row : Fields) (name value : String) : Fields :=
  if name = placeholder then row else Fields.set (row.erase placeholder) name value

/-- A row with fields put into it one after another. -/
def laid (row : Fields) (fields : List (String × String)) : Fields :=
  fields.foldl (fun row field => row.put field.1 field.2) row

/-- A row with the fields of some names taken out. -/
def withoutAll (row : Fields) (names : List String) : Fields :=
  names.foldl without row

/-- Putting a field leaves the other fields and one name of its own. -/
theorem getElem?_put {name : String} (row : Fields) (value : String) (once : IsMarkedOnce name)
    {other : String} (real : other ≠ placeholder) :
    (row.put name value)[other]? =
      if name = placeholder then row[other]?
      else if other = name then some value
      else if baseName other = baseName name then none else row[other]? := by
  unfold put
  by_cases standIn : name = placeholder
  · simp only [standIn, ↓reduceIte]
  · have kept : (row.erase placeholder)[other]? = row[other]? := by
      rw [Std.ExtTreeMap.getElem?_erase]
      simp [real.symm]
    simp only [standIn, ↓reduceIte, getElem?_set _ _ once, kept]

/-- What a name holds after fields are put depends on what it held before. -/
theorem getElem?_laid_congr {row other : Fields} {fields : List (String × String)} {name : String}
    (real : name ≠ placeholder) (once : ∀ field ∈ fields, IsMarkedOnce field.1)
    (same : row[name]? = other[name]?) : (row.laid fields)[name]? = (other.laid fields)[name]? := by
  induction fields generalizing row other with
  | nil => exact same
  | cons field fields ih =>
      apply ih (fun later member => once later (List.mem_cons_of_mem _ member))
      have headOnce := once field List.mem_cons_self
      rw [getElem?_put _ _ headOnce real, getElem?_put _ _ headOnce real, same]

/-- Putting fields changes a name only through the fields of that name. -/
theorem getElem?_laid_filter {fields : List (String × String)} {name : String} (row : Fields)
    (real : name ≠ placeholder) (once : ∀ field ∈ fields, IsMarkedOnce field.1) :
    (row.laid fields)[name]? =
      (row.laid (fields.filter fun field => baseName field.1 = baseName name))[name]? := by
  induction fields generalizing row with
  | nil => rfl
  | cons field fields ih =>
      have headOnce := once field List.mem_cons_self
      have tailOnce : ∀ later ∈ fields, IsMarkedOnce later.1 :=
        fun later member => once later (List.mem_cons_of_mem _ member)
      by_cases own : baseName field.1 = baseName name
      · rw [List.filter_cons_of_pos (by simpa using own)]
        exact ih (row.put field.1 field.2) tailOnce
      · rw [List.filter_cons_of_neg (by simpa using own), ← ih row tailOnce]
        apply getElem?_laid_congr real tailOnce
        have different : name ≠ field.1 := fun equal => own (equal ▸ rfl)
        have apart : baseName name ≠ baseName field.1 := fun equal => own equal.symm
        rw [getElem?_put _ _ headOnce real]
        simp only [different, apart, ↓reduceIte, ite_self]

/-- Putting the placeholder does nothing. -/
theorem laid_placeholder {row : Fields} {fields : List (String × String)}
    (standIns : ∀ field ∈ fields, field.1 = placeholder) : row.laid fields = row := by
  induction fields with
  | nil => rfl
  | cons field fields ih =>
      have headStandIn : row.put field.1 field.2 = row :=
        if_pos (standIns field List.mem_cons_self)
      unfold laid at ih ⊢
      rw [List.foldl_cons, headStandIn]
      exact ih fun later member => standIns later (List.mem_cons_of_mem _ member)

/-- Putting the same fields keeps rows the same up to the placeholder. -/
theorem SameFields.laid {first second : Fields} (same : first.SameFields second)
    {fields : List (String × String)} (once : ∀ field ∈ fields, IsMarkedOnce field.1) :
    (first.laid fields).SameFields (second.laid fields) :=
  fun name real => getElem?_laid_congr real once (same name real)

/-- Taking fields out of a row takes out the names of those fields. -/
theorem getElem?_withoutAll {names : List String} (row : Fields)
    (once : ∀ name ∈ names, IsMarkedOnce name) (other : String) :
    (row.withoutAll names)[other]? =
      if baseName other ∈ names.map baseName then none else row[other]? := by
  induction names generalizing row with
  | nil => rfl
  | cons name names ih =>
      have headOnce := once name List.mem_cons_self
      unfold withoutAll at ih ⊢
      rw [List.foldl_cons, ih _ fun later member => once later (List.mem_cons_of_mem _ member),
        getElem?_without _ headOnce]
      by_cases later : baseName other ∈ names.map baseName
      · simp only [later, ↓reduceIte, List.map_cons, List.mem_cons, or_true]
      · simp only [later, ↓reduceIte, List.map_cons, List.mem_cons, or_false]

/-- Taking out the same fields keeps rows the same up to the placeholder. -/
theorem SameFields.withoutAll {first second : Fields} (same : first.SameFields second)
    {names : List String} (once : ∀ name ∈ names, IsMarkedOnce name) :
    (first.withoutAll names).SameFields (second.withoutAll names) := by
  intro name real
  rw [getElem?_withoutAll _ once, getElem?_withoutAll _ once, same name real]

end Fields

/-- A patch lays its set fields over a row without its removed ones. -/
theorem Patch.apply_eq (patch : Patch) (row : Fields) :
    patch.apply row = (row.withoutAll patch.removed.toList).laid patch.set.toList := rfl

end ConfigVetting
