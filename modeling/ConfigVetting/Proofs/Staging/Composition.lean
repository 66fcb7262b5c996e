import ConfigVetting.Proofs.Maps
import ConfigVetting.Proofs.Staging.Laying

/-! # Two patches one after the other

For regular patches, whose names carry the list mark at most once and which do not set the list
spelling of the placeholder, the composition of two patches does what the two do one after the
other, up to the placeholder (`ConfigVetting.Patch.apply_andThen`).
-/

namespace ConfigVetting

namespace Fields

/-- The fields of a row under the names of one plain name. -/
def only (fields : Fields) (plain : String) : Fields :=
  fields.filter fun name _ => baseName name = plain

private theorem getElem?_only (fields : Fields) (plain name : String) :
    (fields.only plain)[name]? = if baseName name = plain then fields[name]? else none := by
  simp only [only, Std.ExtTreeMap.getElem?_filter']
  by_cases own : baseName name = plain <;> cases fields[name]? <;> simp [own]

/-- The fields under one plain name. -/
theorem mem_toList_only {fields : Fields} {plain : String} {field : String × String} :
    field ∈ (fields.only plain).toList ↔ field ∈ fields.toList ∧ baseName field.1 = plain := by
  rw [only, Std.ExtTreeMap.toList_filter, List.mem_filter, decide_eq_true_iff]

/-- Taking out a field does not change the fields of another plain name. -/
theorem only_without {name plain : String} (fields : Fields) (once : IsMarkedOnce name)
    (other : baseName name ≠ plain) : (fields.without name).only plain = fields.only plain := by
  apply Std.ExtTreeMap.ext_getElem?
  intro key
  rw [getElem?_only, getElem?_only, getElem?_without _ once]
  by_cases own : baseName key = plain
  · have apart : baseName key ≠ baseName name := fun equal => other (equal.symm.trans own)
    simp only [own, ↓reduceIte, own ▸ apart]
  · simp only [own, ↓reduceIte]

/-- Taking out a field leaves none of its plain name. -/
theorem only_without_self {name : String} (fields : Fields) (once : IsMarkedOnce name) :
    (fields.without name).only (baseName name) = ∅ := by
  apply Std.ExtTreeMap.ext_getElem?
  intro key
  rw [getElem?_only, getElem?_without _ once, Std.ExtTreeMap.getElem?_empty]
  by_cases own : baseName key = baseName name <;> simp only [own, ↓reduceIte]

/-- Setting a field does not change the fields of another plain name. -/
theorem only_set {name plain : String} (fields : Fields) (value : String)
    (once : IsMarkedOnce name) (other : baseName name ≠ plain) :
    (Fields.set fields name value).only plain = fields.only plain := by
  rw [← only_without fields once other]
  apply Std.ExtTreeMap.ext_getElem?
  intro key
  rw [getElem?_only, getElem?_only, getElem?_set _ _ once, getElem?_without _ once]
  by_cases own : baseName key = plain
  · have different : key ≠ name := fun equal => other (equal ▸ own)
    simp only [own, ↓reduceIte, different]
  · simp only [own, ↓reduceIte]

/-- Setting a field leaves it alone under its plain name. -/
theorem only_set_self {name : String} (fields : Fields) (value : String)
    (once : IsMarkedOnce name) :
    (Fields.set fields name value).only (baseName name) = (∅ : Fields).insert name value := by
  apply Std.ExtTreeMap.ext_getElem?
  intro key
  rw [getElem?_only, getElem?_set _ _ once, Std.ExtTreeMap.getElem?_insert,
    Std.ExtTreeMap.getElem?_empty]
  by_cases same : key = name
  · simp [same]
  · have apart : name ≠ key := fun equal => same equal.symm
    by_cases own : baseName key = baseName name <;> simp [same, own, apart]

end Fields

namespace Patch

/-- Whether the names of a patch carry the list mark at most once, and none is the list spelling of
the placeholder. Removed names are plain. -/
structure IsRegular (patch : Patch) : Prop where
  once : ∀ name ∈ patch.set, IsMarkedOnce name
  apart : listSpelling placeholder ∉ patch.set
  plain : ∀ name ∈ patch.removed, baseName name = name ∧ IsMarkedOnce name

instance (patch : Patch) : Decidable patch.IsRegular :=
  decidable_of_iff ((∀ name ∈ patch.set.keys, IsMarkedOnce name) ∧
      listSpelling placeholder ∉ patch.set ∧
      ∀ name ∈ patch.removed.toList, baseName name = name ∧ IsMarkedOnce name)
    ⟨fun ⟨once, apart, plain⟩ => ⟨fun name member => once name (Std.ExtTreeMap.mem_keys.mpr member),
        apart, fun name member => plain name (Std.ExtTreeSet.mem_toList.mpr member)⟩,
      fun ⟨once, apart, plain⟩ => ⟨fun name member => once name (Std.ExtTreeMap.mem_keys.mp member),
        apart, fun name member => plain name (Std.ExtTreeSet.mem_toList.mp member)⟩⟩

/-- A regular patch sets no name that is marked twice, and not the placeholder with a mark. -/
theorem IsRegular.set_sound {patch : Patch} (regular : patch.IsRegular) :
    ∀ field ∈ patch.set.toList, IsMarkedOnce field.1 ∧ field.1 ≠ listSpelling placeholder := by
  intro field member
  have inside : field.1 ∈ patch.set := by
    rw [Std.ExtTreeMap.mem_iff_isSome_getElem?,
      Std.ExtTreeMap.mem_toList_iff_getElem?_eq_some.mp member]
    rfl
  exact ⟨regular.once field.1 inside, fun same => regular.apart (same ▸ inside)⟩

/-- A regular patch takes out plain names. -/
theorem IsRegular.removed_plain {patch : Patch} (regular : patch.IsRegular) :
    ∀ name ∈ patch.removed.toList, baseName name = name ∧ IsMarkedOnce name :=
  fun name member => regular.plain name (Std.ExtTreeSet.mem_toList.mp member)

theorem IsRegular.map_baseName_removed {patch : Patch} (regular : patch.IsRegular) :
    patch.removed.toList.map baseName = patch.removed.toList := by
  have same : patch.removed.toList.map baseName = patch.removed.toList.map id :=
    List.map_congr_left fun name member => (regular.removed_plain name member).1
  rw [same, List.map_id]

/-- What a name holds after a patch: the fields set under its plain name, laid over what is not
removed. -/
theorem getElem?_apply {patch : Patch} (regular : patch.IsRegular) (row : Fields) {name : String}
    (real : name ≠ placeholder) :
    (patch.apply row)[name]? =
      ((if baseName name ∈ patch.removed then ∅ else row).laid
        (patch.set.only (baseName name)).toList)[name]? := by
  have once : ∀ field ∈ patch.set.toList, IsMarkedOnce field.1 :=
    fun field member => (regular.set_sound field member).1
  rw [apply_eq, Fields.getElem?_laid_filter _ real once, Fields.only,
    Std.ExtTreeMap.toList_filter]
  apply Fields.getElem?_laid_congr real fun field member => once field (List.mem_filter.mp member).1
  rw [Fields.getElem?_withoutAll _ fun name member => (regular.removed_plain name member).2]
  simp only [regular.map_baseName_removed, Std.ExtTreeSet.mem_toList]
  by_cases gone : baseName name ∈ patch.removed <;> simp [gone]

/-- A patch takes the list spelling of the placeholder out of a row, or leaves it. -/
theorem getElem?_apply_listSpelling_placeholder {patch : Patch} (regular : patch.IsRegular)
    (row : Fields) :
    (patch.apply row)[listSpelling placeholder]? =
      if placeholder ∈ patch.removed then none else row[listSpelling placeholder]? := by
  have standIns : ∀ field ∈ (patch.set.only placeholder).toList, field.1 = placeholder := by
    intro field member
    obtain ⟨inside, plain⟩ := Fields.mem_toList_only.mp member
    rcases eq_baseName_or_eq_listSpelling field.1 with same | listed
    · exact same.trans plain
    · rw [plain] at listed
      refine absurd ?_ regular.apart
      rw [← listed, Std.ExtTreeMap.mem_iff_isSome_getElem?,
        Std.ExtTreeMap.mem_toList_iff_getElem?_eq_some.mp inside]
      rfl
  rw [getElem?_apply regular row (by decide), baseName_listSpelling, Fields.laid_placeholder standIns]
  by_cases gone : placeholder ∈ patch.removed <;> simp [gone]

/-- A patch with the field of a plain name taken out after it. -/
def thenWithout (patch : Patch) (name : String) : Patch :=
  { set := Fields.without patch.set name, removed := patch.removed.insert name }

/-- A patch with a field set after it. -/
def thenSet (patch : Patch) (name value : String) : Patch :=
  { set := Fields.set patch.set name value, removed := patch.removed.erase (baseName name) }

/-- A second patch is composed with a first one name by name. -/
theorem andThen_eq (first second : Patch) :
    first.andThen second =
      second.set.toList.foldl (fun patch field => patch.thenSet field.1 field.2)
        (second.removed.toList.foldl thenWithout first) := rfl

private theorem IsRegular.thenWithout {patch : Patch} (regular : patch.IsRegular) {name : String}
    (plain : baseName name = name) (once : IsMarkedOnce name) :
    (patch.thenWithout name).IsRegular where
  once key member := by
    have inside : key ∈ patch.set :=
      Std.ExtTreeMap.mem_of_mem_erase (Std.ExtTreeMap.mem_of_mem_erase member)
    exact regular.once key inside
  apart member :=
    regular.apart (Std.ExtTreeMap.mem_of_mem_erase (Std.ExtTreeMap.mem_of_mem_erase member))
  plain key member := by
    rcases Std.ExtTreeSet.mem_insert.mp member with same | inside
    · rw [← Std.LawfulEqCmp.compare_eq_iff_eq.mp same]
      exact ⟨plain, once⟩
    · exact regular.plain key inside

private theorem IsRegular.thenSet {patch : Patch} (regular : patch.IsRegular) {name : String}
    (value : String) (once : IsMarkedOnce name) (apart : name ≠ listSpelling placeholder) :
    (patch.thenSet name value).IsRegular where
  once key member := by
    rcases Std.ExtTreeMap.mem_insert.mp member with same | inside
    · rwa [← Std.LawfulEqCmp.compare_eq_iff_eq.mp same]
    · exact regular.once key
        (Std.ExtTreeMap.mem_of_mem_erase (Std.ExtTreeMap.mem_of_mem_erase inside))
  apart member := by
    rcases Std.ExtTreeMap.mem_insert.mp member with same | inside
    · exact apart (Std.LawfulEqCmp.compare_eq_iff_eq.mp same)
    · exact regular.apart
        (Std.ExtTreeMap.mem_of_mem_erase (Std.ExtTreeMap.mem_of_mem_erase inside))
  plain key member := regular.plain key (Std.ExtTreeSet.mem_of_mem_erase member)

/-- Taking out a field after a patch is taking it out of the row that the patch leaves. -/
theorem apply_thenWithout {patch : Patch} (regular : patch.IsRegular) {name : String}
    (plain : baseName name = name) (once : IsMarkedOnce name) (row : Fields) :
    ((patch.thenWithout name).apply row).SameFields (Fields.without (patch.apply row) name) := by
  intro key real
  rw [getElem?_apply (regular.thenWithout plain once) row real, Fields.getElem?_without _ once]
  by_cases own : baseName key = baseName name
  · have gone : baseName key ∈ (patch.thenWithout name).removed := by
      rw [own, plain]
      exact Std.ExtTreeSet.mem_insert_self
    have nothing : (patch.thenWithout name).set.only (baseName key) = ∅ := by
      rw [own]
      exact Fields.only_without_self patch.set once
    rw [if_pos gone, nothing, if_pos own]
    exact Std.ExtTreeMap.getElem?_empty
  · have apart : baseName name ≠ baseName key := fun equal => own equal.symm
    have same : (patch.thenWithout name).set.only (baseName key) = patch.set.only (baseName key) :=
      Fields.only_without patch.set once apart
    have removed : baseName key ∈ (patch.thenWithout name).removed ↔ baseName key ∈ patch.removed := by
      rw [plain] at apart
      simp [thenWithout, Std.ExtTreeSet.mem_insert, apart]
    simp only [own, ↓reduceIte, same, removed, getElem?_apply regular row real]

/-- Setting a field after a patch is putting it into the row that the patch leaves. A row that holds
the list spelling of the placeholder must not have had the placeholder removed. -/
theorem apply_thenSet {patch : Patch} (regular : patch.IsRegular) {name : String}
    (value : String) (once : IsMarkedOnce name) (apart : name ≠ listSpelling placeholder)
    {row : Fields} (safe : placeholder ∉ patch.removed ∨ listSpelling placeholder ∉ row) :
    ((patch.thenSet name value).apply row).SameFields ((patch.apply row).put name value) := by
  intro key real
  have regularSet := regular.thenSet value once apart
  have remaining : baseName key ∈ (patch.thenSet name value).removed ↔
      baseName key ≠ baseName name ∧ baseName key ∈ patch.removed := by
    rw [thenSet, Std.ExtTreeSet.mem_erase, Ne, Std.LawfulEqCmp.compare_eq_iff_eq,
      eq_comm (a := baseName name)]
  rw [getElem?_apply regularSet row real, Fields.getElem?_put _ _ once real]
  by_cases own : baseName key = baseName name
  · have alone : (patch.thenSet name value).set.only (baseName key) =
        (∅ : Fields).insert name value := by
      rw [own]
      exact Fields.only_set_self patch.set value once
    have kept : baseName key ∉ (patch.thenSet name value).removed :=
      fun member => (remaining.mp member).1 own
    rw [if_neg kept, alone, ByName.toList_single]
    change (row.put name value)[key]? = _
    rw [Fields.getElem?_put _ _ once real]
    by_cases standIn : name = placeholder
    · have plain : baseName key = placeholder := by
        rw [own, standIn]
        exact baseName_of_unmarked rfl
      have listed : key = listSpelling placeholder := by
        rw [← plain]
        exact (eq_baseName_or_eq_listSpelling key).resolve_left fun same => real (same.trans plain)
      rw [if_pos standIn, if_pos standIn, listed,
        getElem?_apply_listSpelling_placeholder regular]
      by_cases gone : placeholder ∈ patch.removed
      · have absent : listSpelling placeholder ∉ row := safe.resolve_left fun kept => kept gone
        rw [if_pos gone, Std.ExtTreeMap.getElem?_eq_none absent]
      · rw [if_neg gone]
    · simp only [standIn, own, ↓reduceIte]
  · have same : (patch.thenSet name value).set.only (baseName key) = patch.set.only (baseName key) :=
      Fields.only_set patch.set value once fun equal => own equal.symm
    have different : key ≠ name := fun equal => own (equal ▸ rfl)
    have sameRemoved : baseName key ∈ (patch.thenSet name value).removed ↔
        baseName key ∈ patch.removed := by
      rw [remaining]
      exact and_iff_right own
    simp only [same, sameRemoved, own, different, ↓reduceIte, ite_self,
      getElem?_apply regular row real]

private theorem IsRegular.foldl_thenWithout {patch : Patch} (regular : patch.IsRegular)
    {names : List String} (plain : ∀ name ∈ names, baseName name = name ∧ IsMarkedOnce name) :
    (names.foldl Patch.thenWithout patch).IsRegular := by
  induction names generalizing patch with
  | nil => exact regular
  | cons name names ih =>
      have head := plain name List.mem_cons_self
      exact ih (regular.thenWithout head.1 head.2) fun later member =>
        plain later (List.mem_cons_of_mem _ member)

private theorem IsRegular.foldl_thenSet {patch : Patch} (regular : patch.IsRegular)
    {fields : List (String × String)}
    (sound : ∀ field ∈ fields, IsMarkedOnce field.1 ∧ field.1 ≠ listSpelling placeholder) :
    (fields.foldl (fun patch field => patch.thenSet field.1 field.2) patch).IsRegular := by
  induction fields generalizing patch with
  | nil => exact regular
  | cons field fields ih =>
      have head := sound field List.mem_cons_self
      exact ih (regular.thenSet field.2 head.1 head.2) fun later member =>
        sound later (List.mem_cons_of_mem _ member)

/-- Taking out fields after a patch is taking them out of the row that the patch leaves. -/
theorem apply_foldl_thenWithout {patch : Patch} (regular : patch.IsRegular) {names : List String}
    (plain : ∀ name ∈ names, baseName name = name ∧ IsMarkedOnce name) (row : Fields) :
    ((names.foldl thenWithout patch).apply row).SameFields
      ((patch.apply row).withoutAll names) := by
  induction names generalizing patch with
  | nil => exact Fields.SameFields.refl _
  | cons name names ih =>
      have head := plain name List.mem_cons_self
      have tail : ∀ later ∈ names, baseName later = later ∧ IsMarkedOnce later :=
        fun later member => plain later (List.mem_cons_of_mem _ member)
      have first := apply_thenWithout regular head.1 head.2 row
      have rest := ih (regular.thenWithout head.1 head.2) tail
      exact rest.trans (first.withoutAll fun later member => (tail later member).2)

/-- Setting fields after a patch is putting them into the row that the patch leaves. -/
theorem apply_foldl_thenSet {patch : Patch} (regular : patch.IsRegular)
    {fields : List (String × String)}
    (sound : ∀ field ∈ fields, IsMarkedOnce field.1 ∧ field.1 ≠ listSpelling placeholder)
    {row : Fields} (safe : placeholder ∉ patch.removed ∨ listSpelling placeholder ∉ row) :
    ((fields.foldl (fun patch field => patch.thenSet field.1 field.2) patch).apply row).SameFields
      ((patch.apply row).laid fields) := by
  induction fields generalizing patch with
  | nil => exact Fields.SameFields.refl _
  | cons field fields ih =>
      have head := sound field List.mem_cons_self
      have tail : ∀ later ∈ fields,
          IsMarkedOnce later.1 ∧ later.1 ≠ listSpelling placeholder :=
        fun later member => sound later (List.mem_cons_of_mem _ member)
      have first := apply_thenSet regular field.2 head.1 head.2 safe
      have stillSafe : placeholder ∉ (patch.thenSet field.1 field.2).removed ∨
          listSpelling placeholder ∉ row :=
        safe.imp_left fun kept member => kept (Std.ExtTreeSet.mem_of_mem_erase member)
      have rest := ih (regular.thenSet field.2 head.1 head.2) tail stillSafe
      exact rest.trans (first.laid fun later member => (tail later member).1)

/-- What taking out fields after a patch removes. -/
theorem mem_removed_foldl_thenWithout {patch : Patch} {names : List String} {name : String} :
    name ∈ (names.foldl thenWithout patch).removed ↔ name ∈ names ∨ name ∈ patch.removed := by
  induction names generalizing patch with
  | nil => simp
  | cons head names ih =>
      rw [List.foldl_cons, ih, thenWithout, Std.ExtTreeSet.mem_insert,
        Std.LawfulEqCmp.compare_eq_iff_eq, List.mem_cons, eq_comm (a := head)]
      exact or_left_comm.trans or_assoc.symm

/-- Patches one after another are regular if each of them is. -/
theorem IsRegular.andThen {first second : Patch} (regularFirst : first.IsRegular)
    (regularSecond : second.IsRegular) : (first.andThen second).IsRegular :=
  (regularFirst.foldl_thenWithout regularSecond.removed_plain).foldl_thenSet
    regularSecond.set_sound

/-- The composition of two patches does what they do one after the other. A row that holds the list
spelling of the placeholder must not have the placeholder removed by either. -/
theorem apply_andThen {first second : Patch} (regularFirst : first.IsRegular)
    (regularSecond : second.IsRegular) {row : Fields}
    (safe : (placeholder ∉ first.removed ∧ placeholder ∉ second.removed) ∨
      listSpelling placeholder ∉ row) :
    ((first.andThen second).apply row).SameFields (second.apply (first.apply row)) := by
  have regularMiddle := regularFirst.foldl_thenWithout regularSecond.removed_plain
  have safeMiddle : placeholder ∉ (second.removed.toList.foldl thenWithout first).removed ∨
      listSpelling placeholder ∉ row := by
    refine safe.imp_left fun kept member => ?_
    rw [mem_removed_foldl_thenWithout, Std.ExtTreeSet.mem_toList] at member
    exact member.elim kept.2 kept.1
  have setting := apply_foldl_thenSet regularMiddle regularSecond.set_sound safeMiddle
  have removing := apply_foldl_thenWithout regularFirst regularSecond.removed_plain row
  rw [andThen_eq, second.apply_eq]
  exact setting.trans (removing.laid fun field member => (regularSecond.set_sound field member).1)

/-- What setting fields after a patch removes: what it removes but for their plain names. -/
theorem mem_removed_foldl_thenSet {patch : Patch} {fields : List (String × String)} {name : String} :
    name ∈ (fields.foldl (fun patch field => patch.thenSet field.1 field.2) patch).removed ↔
      name ∈ patch.removed ∧ ∀ field ∈ fields, baseName field.1 ≠ name := by
  induction fields generalizing patch with
  | nil => simp
  | cons field fields ih =>
      rw [List.foldl_cons, ih, thenSet, Std.ExtTreeSet.mem_erase, Ne, Std.LawfulEqCmp.compare_eq_iff_eq,
        List.forall_mem_cons]
      tauto

/-- The composition of two patches removes what one of them removes, but for the plain names that the
second one sets. -/
theorem mem_removed_andThen {first second : Patch} {name : String} :
    name ∈ (first.andThen second).removed ↔
      (name ∈ second.removed ∨ name ∈ first.removed) ∧
        ∀ field ∈ second.set.toList, baseName field.1 ≠ name := by
  rw [andThen_eq, mem_removed_foldl_thenSet, mem_removed_foldl_thenWithout, Std.ExtTreeSet.mem_toList]

end Patch

end ConfigVetting
