import ConfigVetting.Proofs.Document.RoundTrip
import ConfigVetting.Proofs.Staging.Composition

/-! # Patches of rows that were read back

A patch may be applied to the fields of a row as they are stored, or as they are read back from a list
instance of the row. For a regular patch both come to the same row exactly if the fields that it leaves
alone are read back to the same a second time (`ConfigVetting.Patch.IsRegular.settlesAlike_iff`). So they
are unless a reference leads to another one, or to a text that is no member of a list
(`ConfigVetting.TableSchema.Rereads.readBack?_settled`).
-/

namespace ConfigVetting

namespace Fields

/-- What a name holds after a field of its plain name is put does not depend on the row. -/
theorem getElem?_laid_of_mem {row other : Fields} {fields : List (String × String)} {name : String}
    (real : name ≠ placeholder) (once : ∀ field ∈ fields, IsMarkedOnce field.1)
    {field : String × String} (member : field ∈ fields) (put : field.1 ≠ placeholder)
    (own : baseName name = baseName field.1) :
    (row.laid fields)[name]? = (other.laid fields)[name]? := by
  induction fields generalizing row other with
  | nil => cases member
  | cons head fields ih =>
      have laterOnce : ∀ later ∈ fields, IsMarkedOnce later.1 := fun later inside =>
        once later (List.mem_cons_of_mem _ inside)
      rcases List.mem_cons.mp member with rfl | later
      · have headOnce := once field List.mem_cons_self
        have same : (row.put field.1 field.2)[name]? = (other.put field.1 field.2)[name]? := by
          rw [getElem?_put _ _ headOnce real, getElem?_put _ _ headOnce real, if_neg put, if_neg put,
            if_pos own, if_pos own]
        change ((row.put field.1 field.2).laid fields)[name]? =
          ((other.put field.1 field.2).laid fields)[name]?
        exact getElem?_laid_congr real laterOnce same
      · exact ih laterOnce later

end Fields

namespace Patch

variable {patch : Patch} {row other : Fields} {name : String}

/-- Whether a patch neither removes nor sets the field of a name. -/
def Leaves (patch : Patch) (name : String) : Prop :=
  baseName name ∉ patch.removed ∧
    ∀ own ∈ patch.set, own ≠ placeholder → baseName name ≠ baseName own

private theorem Leaves.congr (leaves : patch.Leaves name) {other : String}
    (same : baseName other = baseName name) : patch.Leaves other := by
  unfold Leaves
  rw [same]
  exact leaves

/-- What a name holds is kept by a patch that leaves its field alone. -/
theorem getElem?_apply_of_leaves (regular : patch.IsRegular) (real : name ≠ placeholder)
    (leaves : patch.Leaves name) : (patch.apply row)[name]? = row[name]? := by
  rw [getElem?_apply regular row real, if_neg leaves.1, Fields.laid_placeholder]
  intro field member
  obtain ⟨held, plain⟩ := Fields.mem_toList_only.mp member
  by_contra put
  have inside : field.1 ∈ patch.set := by
    rw [Std.ExtTreeMap.mem_iff_isSome_getElem?, Std.ExtTreeMap.mem_toList_iff_getElem?_eq_some.mp held]
    rfl
  exact leaves.2 field.1 inside put plain.symm

/-- What a name holds after a patch of its field does not depend on the row. -/
theorem getElem?_apply_of_not_leaves (regular : patch.IsRegular) (real : name ≠ placeholder)
    (changes : ¬patch.Leaves name) : (patch.apply row)[name]? = (patch.apply other)[name]? := by
  rw [getElem?_apply regular row real, getElem?_apply regular other real]
  by_cases gone : baseName name ∈ patch.removed
  · rw [if_pos gone, if_pos gone]
  · rw [if_neg gone, if_neg gone]
    obtain ⟨own, inside, put, same⟩ :
        ∃ own ∈ patch.set, own ≠ placeholder ∧ baseName name = baseName own := by
      by_contra none
      push Not at none
      exact changes ⟨gone, none⟩
    obtain ⟨value, held⟩ := Option.isSome_iff_exists.mp
      (Std.ExtTreeMap.mem_iff_isSome_getElem?.mp inside)
    have once : ∀ field ∈ (patch.set.only (baseName name)).toList, IsMarkedOnce field.1 := by
      intro field member
      exact (regular.set_sound field (Fields.mem_toList_only.mp member).1).1
    have member : (own, value) ∈ (patch.set.only (baseName name)).toList :=
      Fields.mem_toList_only.mpr ⟨Std.ExtTreeMap.mem_toList_iff_getElem?_eq_some.mpr held, same.symm⟩
    exact Fields.getElem?_laid_of_mem real once member put same

end Patch

namespace TableSchema

variable {table : TableSchema} {first second fields : Fields} {name : String}

/-- What a name is read back with depends on the fields of its plain name. -/
theorem readBack?_congr (same : ∀ other, baseName other = baseName name → other ≠ placeholder →
    first[other]? = second[other]?) : table.readBack? first name = table.readBack? second name := by
  have plain : first[name]?.bind (table.plainText? name) = second[name]?.bind (table.plainText? name) := by
    by_cases standIn : name = placeholder
    · have nothing : table.plainText? name = fun _ => none := funext fun _ => if_pos standIn
      rw [nothing, Option.bind_fun_none, Option.bind_fun_none]
    · rw [same name rfl standIn]
  cases marked : Text.beforeLast listMark name with
  | none => rw [readBack?_of_unmarked marked, readBack?_of_unmarked marked, plain]
  | some base =>
      obtain rfl : name = listSpelling base := Text.beforeLast_eq_some_iff.mp marked
      rw [baseName_listSpelling] at same
      have gathered : table.gathered first base = table.gathered second base := by
        unfold TableSchema.gathered
        have unmarked : Text.beforeLast listMark placeholder = none := by
          decide
        have listed : listSpelling base ≠ placeholder := fun standIn => by
          rw [standIn, unmarked] at marked
          cases marked
        rw [same (listSpelling base) (baseName_listSpelling base) listed]
        congr 1
        by_cases own : baseName base = base ∧ base ≠ placeholder
        · rw [same base own.1 own.2]
        · have nothing : ∀ held : Option String,
              (held.toList.flatMap fun value => table.memberTexts base base value) = [] :=
            fun held => List.flatMap_eq_nil_iff.mpr fun value _ =>
              if_neg fun all => own ⟨all.2.2.1, all.1⟩
          rw [nothing, nothing]
      rw [readBack?_listSpelling, readBack?_listSpelling, gathered, plain]

/-- The fields of a row other than the placeholder are read back one by one. -/
theorem getElem?_settled_of_ne (real : name ≠ placeholder) :
    (table.settled fields)[name]? = table.readBack? fields name := by
  obtain ⟨kept, found, settled⟩ := table.exists_settled fields
  rw [settled]
  split
  · rw [ByName.getElem?_insert, if_neg real.symm, found]
  · exact found name

/-- Rows are read back to the same row exactly if they are field by field. -/
theorem settled_eq_iff : table.settled first = table.settled second ↔
    ∀ name, table.readBack? first name = table.readBack? second name := by
  constructor
  · intro same name
    by_cases standIn : name = placeholder
    · rw [standIn, readBack?_placeholder, readBack?_placeholder]
    · rw [← getElem?_settled_of_ne standIn, ← getElem?_settled_of_ne standIn, same]
  · intro each
    obtain ⟨kept, found, settled⟩ := table.exists_settled first
    obtain ⟨others, foundOthers, settledOthers⟩ := table.exists_settled second
    have same : kept = others := Std.ExtTreeMap.ext_getElem? fun name => by
      rw [found, foundOthers, each]
    rw [settled, settledOthers, same]

end TableSchema

namespace TableSchema

variable {table : TableSchema} {fields : Fields} {name : String}

/-- Whether what is read back for a row is read back to the same once more. -/
structure Rereads (table : TableSchema) (fields : Fields) : Prop where
  /-- No reference leads to a reference. -/
  plain : ∀ name value : String, fields[name]? = some value → ¬IsReference (referenced value)
  /-- What a member of a leaf-list stands for is a member of a list, and no reference. -/
  members : ∀ base, ∀ member ∈ table.gathered fields base,
    listMembers member = [member] ∧ ¬IsReference member

/-- Only ordinary tables have leaf-lists, and those of no key component. -/
theorem of_mem_memberTexts {base value member : String}
    (inside : member ∈ table.memberTexts base name value) :
    table.mapLeaves = none ∧ table.isKey base = false ∧ baseName name = base := by
  unfold memberTexts at inside
  split at inside
  · next all => exact ⟨all.2.1, all.2.2.2.1, all.2.2.1⟩
  · cases inside

private theorem mem_gathered_iff {base member : String} : member ∈ table.gathered fields base ↔
    ∃ name value : String, fields[name]? = some value ∧ member ∈ table.memberTexts base name value := by
  unfold gathered
  simp only [List.mem_append, List.mem_flatMap, Option.mem_toList]
  constructor
  · rintro (⟨value, held, inside⟩ | ⟨value, held, inside⟩)
    · exact ⟨base, value, held, inside⟩
    · exact ⟨_, value, held, inside⟩
  · rintro ⟨name, value, held, inside⟩
    by_cases plain : name = base
    · exact Or.inl ⟨value, plain ▸ held, plain ▸ inside⟩
    · by_cases listed : name = listSpelling base
      · exact Or.inr ⟨value, listed ▸ held, listed ▸ inside⟩
      · rw [memberTexts_of_ne plain listed] at inside
        cases inside

private theorem rereads_iff : table.Rereads fields ↔
    ∀ field ∈ fields.toList, ¬IsReference (referenced field.2) ∧
      ∀ member ∈ table.memberTexts (baseName field.1) field.1 field.2,
        listMembers member = [member] ∧ ¬IsReference member := by
  constructor
  · rintro ⟨plain, members⟩ ⟨name, value⟩ listed
    have held := Std.ExtTreeMap.mem_toList_iff_getElem?_eq_some.mp listed
    exact ⟨plain name value held, fun member inside =>
      members (baseName name) member (mem_gathered_iff.mpr ⟨name, value, held, inside⟩)⟩
  · refine fun each => ⟨fun name value held => (each _
      (Std.ExtTreeMap.mem_toList_iff_getElem?_eq_some.mpr held)).1,
      fun base member inside => ?_⟩
    obtain ⟨name, value, held, own⟩ := mem_gathered_iff.mp inside
    obtain rfl : baseName name = base := (of_mem_memberTexts own).2.2
    exact (each _ (Std.ExtTreeMap.mem_toList_iff_getElem?_eq_some.mpr held)).2 member own

instance : Decidable (table.Rereads fields) :=
  decidable_of_iff _ rereads_iff.symm

/-- A text that a field is read back with is read back as it is, unless it is a reference. -/
theorem plainText?_of_plainText? {value text : String} (first : table.plainText? name value = some text)
    (plain : ¬IsReference (referenced value)) : table.plainText? name text = some text := by
  unfold plainText? at first ⊢
  by_cases standIn : name = placeholder
  · rw [if_pos standIn] at first
    cases first
  · rw [if_neg standIn] at first ⊢
    cases mapped : table.mapLeaves with
    | some leaves =>
        simp only [mapped, Option.some.injEq] at first ⊢
        by_cases same : leaves.1 = leaves.2
        · rw [if_pos same] at first ⊢
          exact first
        · rw [if_neg same] at first ⊢
          rw [← first, referenced_of_not_isReference plain]
    | none =>
        simp only [mapped] at first ⊢
        split at first
        · cases first
        · next others =>
            cases first
            rw [if_neg others, referenced_of_not_isReference plain]

/-- A field that belongs to a leaf-list has no text of its own. -/
theorem plainText?_eq_none {value : String} (mapped : table.mapLeaves = none)
    (listed : (Text.beforeLast listMark name).isSome ∨ table.isLeafList name = true) :
    table.plainText? name value = none := by
  unfold plainText?
  rw [mapped]
  by_cases standIn : name = placeholder
  · rw [if_pos standIn]
  · rw [if_neg standIn]
    exact if_pos (or_assoc.mp (Or.inl listed))

/-- The plain spelling of a leaf-list is not read back. -/
theorem memberTexts_settled (table : TableSchema) (fields : Fields) (base : String) :
    ((table.settled fields)[base]?.toList.flatMap fun value => table.memberTexts base base value) =
      [] := by
  refine List.flatMap_eq_nil_iff.mpr fun value held => if_neg fun all => ?_
  have real := all.1
  have read := (getElem?_settled_of_ne real).symm.trans (Option.mem_toList.mp held)
  rw [readBack?_of_unmarked (beforeLast_eq_none all.2.2.1)] at read
  obtain ⟨text, _, own⟩ := Option.bind_eq_some_iff.mp read
  rw [plainText?_eq_none all.2.1 all.2.2.2.2] at own
  cases own

/-- The members of a leaf-list are read back to the same once more. -/
theorem Rereads.gathered_settled (rereads : table.Rereads fields) (base : String) :
    table.gathered (table.settled fields) base = table.gathered fields base := by
  have listed : listSpelling base ≠ placeholder := fun standIn => by
    have marked := beforeLast_listSpelling base
    rw [standIn, show Text.beforeLast listMark placeholder = none by decide] at marked
    cases marked
  have whole : table.gathered (table.settled fields) base =
      (table.settled fields)[listSpelling base]?.toList.flatMap fun value =>
        table.memberTexts base (listSpelling base) value := by
    unfold TableSchema.gathered
    rw [memberTexts_settled, List.nil_append]
  rw [whole, getElem?_settled_of_ne listed, readBack?_listSpelling]
  by_cases none : table.gathered fields base = []
  · rw [if_pos none, none]
    refine List.flatMap_eq_nil_iff.mpr fun value held => if_neg fun all => ?_
    obtain ⟨text, _, own⟩ := Option.bind_eq_some_iff.mp (Option.mem_toList.mp held)
    rw [plainText?_eq_none all.2.1 all.2.2.2.2] at own
    cases own
  · obtain ⟨member, inside⟩ := List.exists_mem_of_ne_nil _ none
    obtain ⟨_, _, _, own⟩ := mem_gathered_iff.mp inside
    obtain ⟨mapped, noKey, _⟩ := of_mem_memberTexts own
    have same : (table.gathered fields base).map referenced = (table.gathered fields base).map id :=
      List.map_congr_left fun member inside =>
        referenced_of_not_isReference (rereads.members base member inside).2
    rw [if_neg none, Option.toList_some, List.flatMap_singleton]
    refine (if_pos ⟨listed, mapped, baseName_listSpelling base, noKey, Or.inl ?_⟩).trans ?_
    · rw [listMembers_joinWith fun member inside => (rereads.members base member inside).1, same,
        List.map_id]
    · rw [beforeLast_listSpelling]
      rfl

/-- The fields of a row are read back to the same once more. -/
theorem Rereads.readBack?_settled (rereads : table.Rereads fields) (name : String) :
    table.readBack? (table.settled fields) name = table.readBack? fields name := by
  by_cases standIn : name = placeholder
  · rw [standIn, readBack?_placeholder, readBack?_placeholder]
  have again : (fields[name]?.bind (table.plainText? name)).bind (table.plainText? name) =
      fields[name]?.bind (table.plainText? name) := by
    cases held : fields[name]? with
    | none => rfl
    | some value =>
        rw [Option.bind_some]
        cases first : table.plainText? name value with
        | none => rfl
        | some text => exact plainText?_of_plainText? first (rereads.plain name value held)
  cases marked : Text.beforeLast listMark name with
  | none =>
      rw [readBack?_of_unmarked marked, getElem?_settled_of_ne standIn, readBack?_of_unmarked marked,
        again]
  | some base =>
      obtain rfl : name = listSpelling base := Text.beforeLast_eq_some_iff.mp marked
      rw [readBack?_listSpelling, rereads.gathered_settled, getElem?_settled_of_ne standIn,
        readBack?_listSpelling]
      by_cases none : table.gathered fields base = []
      · rw [if_pos none, if_pos none, again]
      · rw [if_neg none, if_neg none]

end TableSchema

namespace Patch

variable {patch : Patch} {table : TableSchema} {fields : Fields}

/-- Whether a patch of fields that were read back leaves a row that is read back as that of the patch of
the fields themselves. -/
def SettlesAlike (patch : Patch) (table : TableSchema) (fields : Fields) : Prop :=
  table.settled (patch.apply (table.settled fields)) = table.settled (patch.apply fields)

instance : Decidable (patch.SettlesAlike table fields) :=
  inferInstanceAs (Decidable (_ = _))

/-- A regular patch comes to the same on fields that were read back exactly if the fields that it leaves
alone are read back to the same a second time. -/
theorem IsRegular.settlesAlike_iff (regular : patch.IsRegular) :
    patch.SettlesAlike table fields ↔ ∀ name, patch.Leaves name →
      table.readBack? (table.settled fields) name = table.readBack? fields name := by
  have kept : ∀ (row : Fields) name, patch.Leaves name →
      table.readBack? (patch.apply row) name = table.readBack? row name := fun row name leaves =>
    TableSchema.readBack?_congr fun other same real =>
      getElem?_apply_of_leaves regular real (leaves.congr same)
  rw [SettlesAlike, TableSchema.settled_eq_iff]
  refine forall_congr' fun name => ?_
  by_cases leaves : patch.Leaves name
  · rw [kept _ name leaves, kept _ name leaves]
    exact ⟨fun same _ => same, fun same => same leaves⟩
  · refine iff_of_true (TableSchema.readBack?_congr fun other same real => ?_)
      fun left => absurd left leaves
    exact getElem?_apply_of_not_leaves regular real fun left => leaves (left.congr same.symm)

/-- A regular patch comes to the same on fields that were read back, if these are read back to the same
once more. -/
theorem IsRegular.settlesAlike (regular : patch.IsRegular) (rereads : table.Rereads fields) :
    patch.SettlesAlike table fields :=
  regular.settlesAlike_iff.mpr fun name _ => rereads.readBack?_settled name

end Patch

end ConfigVetting
