import ConfigVetting.Proofs.Staging.Stepwise

/-! # Edits one after another

What the edits of a row come to if each is made on the row that the one before it leaves is told here by
look-ups alone, name by name (`ConfigVetting.StagedEdit.change`). The net effect of the edits comes to the
same under every name but those of the placeholder. A row may also hold the list spelling of the
placeholder. An edit that names the placeholder takes it out of the row, whereas the net effect takes it out
only if the last such edit is a delete; so the two agree exactly if the row does not hold it, or some edit
makes or removes the row, or the last one that names the placeholder is a delete
(`ConfigVetting.StagedEdits.rowAfter_agrees_iff`).
-/

namespace ConfigVetting

namespace Fields

/-- The fields of a plain name, in their order. -/
theorem filter_spellings (fields : Fields) {plain : String} (unmarked : baseName plain = plain) :
    fields.toList.filter (fun field => baseName field.1 = plain) =
      (fields[plain]?.toList.map fun text => (plain, text)) ++
        fields[listSpelling plain]?.toList.map fun text => (listSpelling plain, text) := by
  have gathered : fields.toList.filter (fun field => baseName field.1 = plain) =
      fields.toList.flatMap fun field => if baseName field.1 = plain then [field] else [] := by
    induction fields.toList with
    | nil => rfl
    | cons field rest ih =>
        rw [List.filter_cons, List.flatMap_cons, ih]
        by_cases own : baseName field.1 = plain <;> simp [own]
  rw [gathered, ByName.flatMap_toList_of_two fields (compare_listSpelling plain)]
  · simp only [unmarked, baseName_listSpelling, ↓reduceIte, ← List.map_eq_flatMap]
  · intro field other listed
    refine if_neg fun own => ?_
    rcases eq_baseName_or_eq_listSpelling field.1 with same | same
    · exact other (same.trans own)
    · exact listed (own ▸ same)

/-- Putting a field leaves none of its spellings but the one that is put. -/
theorem getElem?_put_of_spellsAlike {name field : String} (alike : SpellsAlike name field) (row : Fields)
    (text : String) (real : baseName name ≠ placeholder) :
    (row.put field text)[name]? = if name = field then some text else none := by
  obtain ⟨once, own⟩ := spellsAlike_iff.mp alike
  have standIn : field ≠ placeholder := fun same => real (by
    rw [own, same]
    exact baseName_of_unmarked rfl)
  rw [getElem?_put row text once (Patch.ne_placeholder_of_baseName real).1, if_neg standIn, if_pos own]

/-- Of the two spellings of a field the list spelling is put last, and takes the place of the plain one. -/
theorem getElem?_laid_spellings {fields : Fields} {plain name : String}
    (unmarked : ∀ stem, plain ≠ listSpelling stem) (spelled : name = plain ∨ name = listSpelling plain)
    (real : baseName name ≠ placeholder) (once : ∀ stem, listSpelling (listSpelling stem) ∉ fields)
    (given : plain ∈ fields ∨ listSpelling plain ∈ fields) (row : Fields) :
    (row.laid ((fields[plain]?.toList.map fun text => (plain, text)) ++
        fields[listSpelling plain]?.toList.map fun text => (listSpelling plain, text)))[name]? =
      if listSpelling name ∈ fields then none else fields[name]? := by
  have apart := ByName.ne_of_compare_lt (compare_listSpelling plain)
  cases second : fields[listSpelling plain]? with
  | some text =>
      rw [Option.toList_some, List.map_singleton, laid, List.foldl_concat,
        getElem?_put_of_spellsAlike ⟨plain, unmarked, spelled, Or.inr rfl⟩ _ _ real]
      rcases spelled with rfl | rfl
      · rw [if_neg apart, if_pos (Std.ExtTreeMap.mem_iff_isSome_getElem?.mpr (by rw [second]; rfl))]
      · rw [if_pos rfl, if_neg (once plain), second]
  | none =>
      have missing : listSpelling plain ∉ fields := fun inside => by
        rw [Std.ExtTreeMap.mem_iff_isSome_getElem?, second] at inside
        cases inside
      obtain ⟨text, first⟩ := Option.isSome_iff_exists.mp
        (Std.ExtTreeMap.mem_iff_isSome_getElem?.mp (given.resolve_right missing))
      rw [first, Option.toList_some, List.map_singleton, Option.toList_none, List.map_nil, List.append_nil,
        laid, List.foldl_cons, List.foldl_nil,
        getElem?_put_of_spellsAlike ⟨plain, unmarked, spelled, Or.inl rfl⟩ _ _ real]
      rcases spelled with rfl | rfl
      · rw [if_pos rfl, if_neg missing, first]
      · rw [if_neg apart.symm, if_neg (once plain), second]

/-- Fields laid over a row leave under a name what they hold under it if one of them is spelled alike, else
what the row held. -/
theorem getElem?_laid_toList {fields : Fields} (once : ∀ name ∈ fields.keys, IsMarkedOnce name)
    (row : Fields) {name : String} (real : baseName name ≠ placeholder) :
    (row.laid fields.toList)[name]? =
      if ∃ field ∈ fields.keys, SpellsAlike name field then
        if listSpelling name ∈ fields then none else fields[name]?
      else row[name]? := by
  have key : ∀ field ∈ fields.toList, field.1 ∈ fields.keys := fun field member =>
    Std.ExtTreeMap.mem_keys.mpr (Std.ExtTreeMap.mem_iff_isSome_getElem?.mpr (by
      rw [Std.ExtTreeMap.mem_toList_iff_getElem?_eq_some.mp member]
      rfl))
  rw [getElem?_laid_filter row (Patch.ne_placeholder_of_baseName real).1 fun field member =>
    once field.1 (key field member)]
  split
  next alike =>
    obtain ⟨field, member, plain, unmarked, spelled, others⟩ := alike
    rw [baseName_of_spelled unmarked spelled,
      filter_spellings fields (baseName_of_spelled unmarked (Or.inl rfl))]
    refine getElem?_laid_spellings unmarked spelled real
      (fun stem inside => once _ (Std.ExtTreeMap.mem_keys.mpr inside) stem rfl) ?_ row
    rcases others with rfl | rfl
    · exact Or.inl (Std.ExtTreeMap.mem_keys.mp member)
    · exact Or.inr (Std.ExtTreeMap.mem_keys.mp member)
  next apart =>
    rw [List.filter_eq_nil_iff.mpr]
    · rfl
    · exact fun field member own => apart ⟨field.1, key field member,
        spellsAlike_iff.mpr ⟨once field.1 (key field member), (of_decide_eq_true own).symm⟩⟩

end Fields

namespace StagedEdit

/-- Whether some field of an edit is spelled alike with a name. -/
def Concerns (edit : StagedEdit) (name : String) : Prop :=
  ∃ field ∈ edit.fields.keys, SpellsAlike name field

instance (edit : StagedEdit) (name : String) : Decidable (edit.Concerns name) :=
  inferInstanceAs (Decidable (∃ field ∈ edit.fields.keys, _))

/-- What the fields of an edit tell of a name. Of two spellings of a field the list spelling comes last and
takes the place of the plain one. -/
def told (edit : StagedEdit) (name : String) : Option String :=
  if listSpelling name ∈ edit.fields then none else edit.fields[name]?

/-- What a row holds under each name after an edit, if it is there. A create replaces it by its fields; an
update lays its fields over a row that is there in place of both spellings of each; a delete takes its fields
out in both spellings, or removes the row if it has none but the placeholder. -/
def change (held : Option (String → Option String)) (edit : StagedEdit) :
    Option (String → Option String) :=
  match edit.operation with
  | .create => some fun name => edit.fields[name]?
  | .update | .none => held.map fun held name =>
      if edit.Concerns name then edit.told name else held name
  | .delete =>
    if ∀ name ∈ edit.fields.keys, name = placeholder then none
    else held.map fun held name => if edit.Concerns name then none else held name

variable {edit : StagedEdit} {name : String} {row : Option Fields}
  {held : Option (String → Option String)}

private theorem change_delete (fields : Fields) : change held ⟨.delete, fields⟩ =
    if fields.areNone then none
    else held.map fun held name => if (⟨.delete, fields⟩ : StagedEdit).Concerns name then none
      else held name :=
  if_congr (by simp [Fields.areNone]) rfl rfl

private theorem concerns_iff (regular : edit.IsRegular) :
    edit.Concerns name ↔ baseName name ∈ edit.fields.keys.map baseName := by
  rw [List.mem_map]
  refine exists_congr fun field => and_congr_right fun member => ?_
  rw [spellsAlike_iff, and_iff_right (regular field member).1, eq_comm]

/-- An edit names a spelling of the placeholder exactly if it names the placeholder. -/
theorem concerns_placeholder_iff (regular : edit.IsRegular) :
    edit.Concerns (listSpelling placeholder) ↔ placeholder ∈ edit.fields := by
  rw [← Std.ExtTreeMap.mem_keys]
  constructor
  · rintro ⟨field, member, alike⟩
    have own := (spellsAlike_iff.mp alike).2
    rw [baseName_listSpelling] at own
    rcases eq_baseName_or_eq_listSpelling field with same | same
    · rwa [own, ← same]
    · exact absurd (own ▸ same) (regular field member).2
  · exact fun member => ⟨placeholder, member, spellsAlike_iff.mpr
      ⟨(regular _ member).1, (baseName_listSpelling _).trans (baseName_of_unmarked rfl).symm⟩⟩

/-- An edit makes, removes or keeps a row as it does what the row holds. -/
theorem isSome_change (there : row.isSome = held.isSome) :
    (edit.state.apply row).isSome = (edit.change held).isSome := by
  obtain ⟨operation, fields⟩ := edit
  cases operation with
  | create => rfl
  | update => simpa [state, RowState.ofEdit, RowState.apply, change] using there
  | none => simpa [state, RowState.ofEdit, RowState.apply, change] using there
  | delete =>
      rw [change_delete]
      by_cases whole : fields.areNone
      · simp [state, RowState.ofEdit, RowState.apply, whole]
      · simpa [state, RowState.ofEdit, RowState.apply, whole] using there

/-- What a row holds under a name is changed as the row is. -/
theorem heldUnder_map {after : Fields → Fields}
    {answer : (String → Option String) → String → Option String} (there : row.isSome = held.isSome)
    (same : heldUnder name row = held.bind fun held => held name)
    (each : ∀ (fields : Fields) held, fields[name]? = held name → (after fields)[name]? = answer held name) :
    heldUnder name (row.map after) = (held.map answer).bind fun held => held name := by
  match row, held with
  | some fields, some held => exact each fields held same
  | none, none => rfl

/-- An edit acts on a row as on what the row holds under a name, if that is not one of the placeholder. -/
theorem heldUnder_apply_state (regular : edit.IsRegular) (real : baseName name ≠ placeholder)
    (there : row.isSome = held.isSome) (same : heldUnder name row = held.bind fun held => held name) :
    heldUnder name (edit.state.apply row) = (edit.change held).bind fun held => held name := by
  have once : ∀ name ∈ edit.fields.keys, IsMarkedOnce name := fun name member => (regular name member).1
  have laid : heldUnder name (row.map (Patch.setting edit.fields).apply) =
      (held.map fun held name => if edit.Concerns name then edit.told name else held name).bind
        fun held => held name :=
    heldUnder_map there same fun fields held kept =>
      (Fields.getElem?_laid_toList once fields real).trans (by rw [kept]; rfl)
  obtain ⟨operation, fields⟩ := edit
  cases operation with
  | create => rfl
  | update => exact laid
  | none => exact laid
  | delete =>
      rw [change_delete]
      by_cases whole : fields.areNone
      · simp only [state, RowState.ofEdit, RowState.apply, whole, ↓reduceIte]
        rfl
      · simp only [state, RowState.ofEdit, RowState.apply, whole, ↓reduceIte, Bool.false_eq_true]
        refine heldUnder_map there same fun fields held kept => ?_
        rw [Patch.apply_removing once fields name (Patch.ne_placeholder_of_baseName real).1,
          Fields.getElem?_withoutAll _ once, kept]
        simp only [concerns_iff regular]

/-- After an edit that names the placeholder, and one that makes or removes the row, the row does not hold
the list spelling of the placeholder; after any other it does as before. -/
theorem change_placeholder (regular : edit.IsRegular) :
    ((edit.change held).bind fun held => held (listSpelling placeholder)) =
      if edit.Settles ∨ placeholder ∈ edit.fields then none
      else held.bind fun held => held (listSpelling placeholder) := by
  have missing : edit.fields[listSpelling placeholder]? = none := Std.ExtTreeMap.getElem?_eq_none
    fun inside => (regular _ (Std.ExtTreeMap.mem_keys.mpr inside)).2 rfl
  have answered : ∀ answer : String → Option String, answer (listSpelling placeholder) = none →
      ((held.map fun held name => if edit.Concerns name then answer name else held name).bind fun held =>
        held (listSpelling placeholder)) = if placeholder ∈ edit.fields then none
          else held.bind fun held => held (listSpelling placeholder) := by
    intro answer none
    cases held with
    | none => simp
    | some held => simp [concerns_placeholder_iff regular, none]
  have told : edit.told (listSpelling placeholder) = none := by
    rw [StagedEdit.told, missing, ite_self]
  obtain ⟨operation, fields⟩ := edit
  cases operation with
  | create => exact missing.trans (if_pos (Or.inl (Or.inl rfl))).symm
  | update =>
      have keeps : ¬ (⟨.update, fields⟩ : StagedEdit).Settles := by simp [Settles, Removes]
      simp only [or_iff_right keeps]
      exact answered _ told
  | none =>
      have keeps : ¬ (⟨.none, fields⟩ : StagedEdit).Settles := by simp [Settles, Removes]
      simp only [or_iff_right keeps]
      exact answered _ told
  | delete =>
      rw [change_delete]
      by_cases whole : fields.areNone
      · rw [if_pos whole]
        exact (if_pos (Or.inl (Or.inr ⟨rfl, whole⟩))).symm
      · have keeps : ¬ (⟨.delete, fields⟩ : StagedEdit).Settles := by simp [Settles, Removes, whole]
        simp only [or_iff_right keeps, if_neg whole]
        exact answered (fun _ => none) rfl

/-- What the patch of an edit takes out and sets of the placeholder. -/
theorem placeholder_of_overlay (regular : edit.IsRegular) {patch : Patch}
    (net : edit.state = .overlay patch) :
    (placeholder ∈ patch.removed ↔ placeholder ∈ edit.fields ∧ edit.operation = .delete) ∧
      ((∀ field ∈ patch.set.toList, baseName field.1 ≠ placeholder) ↔
        (placeholder ∈ edit.fields → edit.operation = .delete)) := by
  have named : placeholder ∈ edit.fields.keys.map baseName ↔ placeholder ∈ edit.fields := by
    rw [← concerns_placeholder_iff regular, concerns_iff regular, baseName_listSpelling]
  have listed : (∀ field ∈ edit.fields.toList, baseName field.1 ≠ placeholder) ↔
      placeholder ∉ edit.fields := by
    rw [← named, ← Std.ExtTreeMap.map_fst_toList_eq_keys, List.map_map]
    simp
  have nothing : placeholder ∉ (∅ : Names) := Std.ExtTreeSet.not_mem_empty
  obtain ⟨operation, fields⟩ := edit
  cases operation with
  | create => cases net
  | update =>
      obtain rfl : Patch.setting fields = patch := RowState.overlay.inj net
      exact ⟨iff_of_false nothing (by simp), listed.trans (by simp)⟩
  | none =>
      obtain rfl : Patch.setting fields = patch := RowState.overlay.inj net
      exact ⟨iff_of_false nothing (by simp), listed.trans (by simp)⟩
  | delete =>
      by_cases whole : fields.areNone
      · simp [state, RowState.ofEdit, whole] at net
      · simp only [state, RowState.ofEdit, whole, Bool.false_eq_true, ↓reduceIte] at net
        obtain rfl : Patch.removing fields.keys = patch := RowState.overlay.inj net
        have setsNothing : ∀ field ∈ (Patch.removing fields.keys).set.toList,
            baseName field.1 ≠ placeholder := by
          simp [Patch.removing]
        exact ⟨by rw [Patch.mem_removed_removing, named]; simp, iff_of_true setsNothing fun _ => rfl⟩

end StagedEdit

/-- Whether a row is there exactly if look-ups are, and holds what they tell but for the placeholder. -/
structure Agrees (row : Option Fields) (held : Option (String → Option String)) : Prop where
  there : row.isSome = held.isSome
  fields : ∀ name, name ≠ placeholder → heldUnder name row = held.bind fun held => held name

namespace StagedEdits

/-- What the row holds that a stored one becomes by its staged edits one after another. -/
def heldInTurn (staged : StagedEdits) (table rowKey : String) (stored : Option Fields) :
    Option (String → Option String) :=
  (staged.edits table rowKey).foldl StagedEdit.change (stored.map fun fields (name : String) => fields[name]?)

/-- The last of some edits that names the placeholder. -/
def lastOfPlaceholder? (edits : List StagedEdit) : Option StagedEdit :=
  (edits.filter fun edit => placeholder ∈ edit.fields).getLast?

private theorem lastOfPlaceholder?_concat (edits : List StagedEdit) (edit : StagedEdit) :
    lastOfPlaceholder? (edits ++ [edit]) =
      if placeholder ∈ edit.fields then some edit else lastOfPlaceholder? edits := by
  unfold lastOfPlaceholder?
  rw [List.filter_append]
  by_cases own : placeholder ∈ edit.fields <;> simp [own]

variable {edits : List StagedEdit} {stored : Option Fields} {held : Option (String → Option String)}

private theorem isSome_rowBy (there : stored.isSome = held.isSome) (edits : List StagedEdit) :
    (rowBy edits stored).isSome = (edits.foldl StagedEdit.change held).isSome := by
  induction edits using List.reverseRecOn with
  | nil => exact there
  | append_singleton edits edit ih =>
      rw [isSome_rowBy_concat, List.foldl_concat]
      exact StagedEdit.isSome_change ih

/-- The net effect of edits comes to what they do one after another under every name but those of the
placeholder. -/
theorem heldUnder_rowBy (regular : ∀ edit ∈ edits, edit.IsRegular) (there : stored.isSome = held.isSome)
    {name : String} (real : baseName name ≠ placeholder)
    (same : heldUnder name stored = held.bind fun held => held name) :
    heldUnder name (rowBy edits stored) =
      (edits.foldl StagedEdit.change held).bind fun held => held name := by
  induction edits using List.reverseRecOn with
  | nil => exact same
  | append_singleton edits edit ih =>
      rw [heldUnder_rowBy_concat regular stored real, List.foldl_concat]
      rw [List.forall_mem_append, List.forall_mem_singleton] at regular
      exact StagedEdit.heldUnder_apply_state regular.2 real (isSome_rowBy there edits) (ih regular.1)

/-- What the net effect of edits tells of the list spelling of the placeholder: a row that they make does not
have it, and a row that they change loses it if the last of them that names the placeholder is a delete. -/
def TellsOfPlaceholder (edits : List StagedEdit) : Option RowState → Prop
  | none => edits = []
  | some (.present fields) => listSpelling placeholder ∉ fields
  | some (.overlay patch) => placeholder ∈ patch.removed ↔
      (lastOfPlaceholder? edits).map StagedEdit.operation = some .delete
  | some .deleted => True

private theorem tellsOfPlaceholder_netState (regular : ∀ edit ∈ edits, edit.IsRegular) :
    TellsOfPlaceholder edits (netState edits) := by
  induction edits using List.reverseRecOn with
  | nil => rfl
  | append_singleton edits edit ih =>
      rw [List.forall_mem_append, List.forall_mem_singleton] at regular
      have before := ih regular.1
      rw [netState_concat]
      rcases edit.makes_removes_or_keeps with ⟨creates, net, -⟩ | ⟨removes, net, -⟩ | ⟨keeps, ⟨patch, net⟩, -⟩
      · have missing : listSpelling placeholder ∉ edit.fields := fun inside =>
          (regular.2 _ (Std.ExtTreeMap.mem_keys.mpr inside)).2 rfl
        rw [net]
        rcases netState edits with _ | ⟨⟩ | ⟨⟩ | ⟨⟩ <;> exact missing
      · rw [net]
        rcases netState edits with _ | ⟨⟩ | ⟨⟩ | ⟨⟩ <;> trivial
      · obtain ⟨taken, kept⟩ := edit.placeholder_of_overlay regular.2 net
        have regularPatch : patch.IsRegular := by
          have last := RowState.isRegular_state regular.2
          rwa [net] at last
        rw [net]
        generalize netState edits = earlier at before
        rcases earlier with _ | fields | first | _
        · cases (show edits = [] from before)
          refine taken.trans ?_
          rw [lastOfPlaceholder?_concat]
          by_cases own : placeholder ∈ edit.fields <;> simp [own, lastOfPlaceholder?]
        · intro inside
          rw [Std.ExtTreeMap.mem_iff_isSome_getElem?,
            Patch.getElem?_apply_listSpelling_placeholder regularPatch,
            Std.ExtTreeMap.getElem?_eq_none before, ite_self] at inside
          cases inside
        · refine Patch.mem_removed_andThen.trans ?_
          rw [lastOfPlaceholder?_concat, taken, kept, show placeholder ∈ first.removed ↔ _ from before]
          by_cases own : placeholder ∈ edit.fields
          · simp only [own, true_and, forall_true_left, if_true, Option.map_some, Option.some.injEq]
            exact and_iff_right_of_imp Or.inl
          · simp [own]
        · trivial

/-- The net effect of edits leaves the list spelling of the placeholder in a row that they neither make nor
remove, unless the last of them that names the placeholder is a delete. -/
theorem heldUnder_rowBy_placeholder (regular : ∀ edit ∈ edits, edit.IsRegular) :
    heldUnder (listSpelling placeholder) (rowBy edits stored) =
      if (∃ edit ∈ edits, edit.Settles) ∨
          (lastOfPlaceholder? edits).map StagedEdit.operation = some .delete then none
      else heldUnder (listSpelling placeholder) stored := by
  have told := tellsOfPlaceholder_netState regular
  have settled := tells_netState edits stored
  have regularNet : ∀ state, netState edits = some state → state.IsRegular :=
    fun _ => isRegular_netState regular
  unfold rowBy
  generalize netState edits = net at told settled regularNet
  rcases net with _ | fields | patch | _
  · cases (show edits = [] from told)
    simp [lastOfPlaceholder?]
  · rw [if_pos (Or.inl settled.2)]
    exact Std.ExtTreeMap.getElem?_eq_none told
  · have keeps : ¬ ∃ edit ∈ edits, edit.Settles := fun ⟨edit, member, settles⟩ =>
      settled.2.2 edit member settles
    simp only [or_iff_right keeps, ← show placeholder ∈ patch.removed ↔ _ from told]
    cases stored with
    | none => exact (ite_self _).symm
    | some row => exact Patch.getElem?_apply_listSpelling_placeholder (regularNet _ rfl) row
  · rw [if_pos (Or.inl settled.2)]
    rfl

/-- Edits made one after another leave the list spelling of the placeholder in a row if none of them makes
the row, removes it or names the placeholder. -/
theorem foldl_change_placeholder (regular : ∀ edit ∈ edits, edit.IsRegular) :
    ((edits.foldl StagedEdit.change held).bind fun held => held (listSpelling placeholder)) =
      if ∃ edit ∈ edits, edit.Settles ∨ placeholder ∈ edit.fields then none
      else held.bind fun held => held (listSpelling placeholder) := by
  induction edits using List.reverseRecOn with
  | nil => simp
  | append_singleton edits edit ih =>
      rw [List.forall_mem_append, List.forall_mem_singleton] at regular
      rw [List.foldl_concat, StagedEdit.change_placeholder regular.2, ih regular.1, ← ite_or]
      refine if_congr ?_ rfl rfl
      simp only [List.mem_append, List.mem_singleton, or_and_right, exists_or, exists_eq_left]
      exact or_comm

/-- **The net effect of the staged edits of a row is what they do one after another**, but for the
placeholder, exactly if the stored row does not hold the list spelling of the placeholder, or some edit makes
or removes the row, or the last edit that names the placeholder is a delete. The names of the edits carry the
list mark at most once and are not the list spelling of the placeholder. -/
theorem rowAfter_agrees_iff (staged : StagedEdits) (table rowKey : String) (stored : Option Fields)
    (regular : ∀ edit ∈ staged.edits table rowKey, edit.IsRegular) :
    Agrees (staged.rowAfter table rowKey stored) (staged.heldInTurn table rowKey stored) ↔
      (∀ row ∈ stored, listSpelling placeholder ∉ row) ∨
        (∃ edit ∈ staged.edits table rowKey, edit.Settles) ∨
        ∀ edit ∈ lastOfPlaceholder? (staged.edits table rowKey), edit.operation = .delete := by
  have there : stored.isSome = (stored.map fun fields (name : String) => fields[name]?).isSome :=
    Option.isSome_map.symm
  have same : ∀ name : String, heldUnder name stored =
      (stored.map fun fields (name : String) => fields[name]?).bind fun held => held name := fun name => by
    cases stored <;> rfl
  have missing : (∀ row ∈ stored, listSpelling placeholder ∉ row) ↔
      heldUnder (listSpelling placeholder) stored = none := by
    cases stored with
    | none => simp [heldUnder]
    | some row => simp [heldUnder]
  have net : staged.rowAfter table rowKey stored = rowBy (staged.edits table rowKey) stored := rfl
  rw [net, heldInTurn, missing]
  generalize staged.edits table rowKey = edits at regular
  have named : (∃ edit ∈ edits, placeholder ∈ edit.fields) ↔ lastOfPlaceholder? edits ≠ none := by
    simp [lastOfPlaceholder?]
  -- Under all names but that of the list spelling of the placeholder they agree in any case.
  trans heldUnder (listSpelling placeholder) (rowBy edits stored) =
    (edits.foldl StagedEdit.change (stored.map fun fields (name : String) => fields[name]?)).bind
      fun held => held (listSpelling placeholder)
  · refine ⟨fun agrees => agrees.fields _ (by decide), fun listed =>
      ⟨isSome_rowBy there edits, fun name real => ?_⟩⟩
    by_cases own : baseName name = placeholder
    · rcases eq_baseName_or_eq_listSpelling name with same | same
      · exact absurd (same.trans own) real
      · rw [same, own]
        exact listed
    · exact heldUnder_rowBy regular there own (same name)
  · rw [heldUnder_rowBy_placeholder regular, foldl_change_placeholder regular, ← same]
    simp only [and_or_left, exists_or, named]
    by_cases settles : ∃ edit ∈ edits, edit.Settles
    · simp [settles]
    · cases last : lastOfPlaceholder? edits with
      | none => simp [settles]
      | some edit => by_cases takesOut : edit.operation = .delete <;> simp [settles, takesOut]

/-- A row that holds the list spelling of the placeholder, and a leaf-list that is set in its list spelling,
taken out by its plain name together with the placeholder, and set in that. -/
theorem rowAfter_agrees_of_lastTakenOut :
    let staged := ((empty.record "PORT" "Ethernet0" .update
      (((∅ : Fields).insert "NULL" "NULL").insert "lanes@" "1,2")).record "PORT" "Ethernet0" .delete
        (((∅ : Fields).insert "NULL" "").insert "lanes" "")).record "PORT" "Ethernet0" .update
          (((∅ : Fields).insert "lanes" "3").insert "mtu" "9100")
    let stored := some (((∅ : Fields).insert "NULL@" "x").insert "lanes@" "1")
    Agrees (staged.rowAfter "PORT" "Ethernet0" stored)
      (staged.heldInTurn "PORT" "Ethernet0" stored) :=
  (rowAfter_agrees_iff _ _ _ _ (by decide +kernel)).mpr (Or.inr (Or.inr (by decide +kernel)))

/-- An update that names the placeholder after a delete brings the list spelling of it back into the net
effect. -/
theorem not_rowAfter_agrees_of_placeholder :
    let staged := (empty.record "PORT" "Ethernet0" .delete
      (((∅ : Fields).insert "NULL" "").insert "mtu" "")).record "PORT" "Ethernet0" .update
        ((∅ : Fields).insert "NULL" "NULL")
    let stored := some ((∅ : Fields).insert "NULL@" "x")
    (∀ edit ∈ staged.edits "PORT" "Ethernet0", edit.IsRegular) ∧
      ¬ Agrees (staged.rowAfter "PORT" "Ethernet0" stored)
        (staged.heldInTurn "PORT" "Ethernet0" stored) := by
  refine ⟨by decide +kernel, fun agrees => ?_⟩
  have listed := agrees.fields (listSpelling placeholder) (by decide)
  revert listed
  decide +kernel

end StagedEdits

end ConfigVetting
