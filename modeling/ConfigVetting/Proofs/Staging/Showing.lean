import ConfigVetting.Proofs.Document.Mandatory
import ConfigVetting.Proofs.Staging.Stepwise

/-! # Leaves that edits decide

Whether a row that was created shows a value of a leaf is decided by the last of its edits that creates it
or names the leaf in any spelling; later edits leave it as it is
(`ConfigVetting.StagedEdits.exists_present_of_append`). An update that names the leaf and tells a value of
it wherever it does so leaves one (`ConfigVetting.StagedEdit.shows_of_tells`).
-/

namespace ConfigVetting

/-- A name without its list marks. -/
def unmarkedName (name : String) : String :=
  String.ofList (name.toList.reverse.dropWhile (· = listMark)).reverse

private theorem unmarkedName_listSpelling (name : String) :
    unmarkedName (listSpelling name) = unmarkedName name := by
  unfold unmarkedName listSpelling
  rw [String.toList_push, List.reverse_append, List.reverse_singleton, List.singleton_append,
    List.dropWhile_cons, if_pos (decide_eq_true rfl)]

private theorem unmarkedName_baseName (name : String) : unmarkedName (baseName name) = unmarkedName name := by
  rcases eq_baseName_or_eq_listSpelling name with plain | listed
  · rw [← plain]
  · exact (unmarkedName_listSpelling (baseName name)).symm.trans (congrArg unmarkedName listed.symm)

private theorem unmarkedName_of_unmarked {name : String} (unmarked : Text.beforeLast listMark name = none) :
    unmarkedName name = name := by
  unfold Text.beforeLast at unmarked
  unfold unmarkedName
  cases reversed : name.toList.reverse with
  | nil =>
      rw [List.dropWhile_nil, ← reversed, List.reverse_reverse, String.ofList_toList]
  | cons last rest =>
      simp only [reversed, ite_eq_right_iff, reduceCtorEq, imp_false] at unmarked
      rw [List.dropWhile_cons, if_neg (by simpa using unmarked), ← reversed, List.reverse_reverse,
        String.ofList_toList]

namespace TableSchema

variable {table : TableSchema} {field : String}

/-- Whether a field of an edit concerns a leaf: it is called like the leaf, list marks apart, or is an
entry. -/
def Names (table : TableSchema) (name field : String) : Prop :=
  if table.mapLeaves.isSome then name ≠ placeholder else unmarkedName name = field

private theorem Tells.names (unmarked : Text.beforeLast listMark field = none) {name text : String}
    (told : table.Tells name text field) : table.Names name field := by
  unfold Names
  cases entries : table.mapLeaves with
  | some leaves => exact told.ne_placeholder
  | none =>
      simp only [Option.isSome_none, Bool.false_eq_true, ↓reduceIte]
      rw [← unmarkedName_baseName, told.baseName_eq entries, unmarkedName_of_unmarked unmarked]

/-- Whether fields show a value of a leaf depends on those that concern it, the placeholder apart. -/
theorem shows_congr (unmarked : Text.beforeLast listMark field = none) {first second : Fields}
    (same : ∀ name, table.Names name field → name ≠ placeholder → first[name]? = second[name]?) :
    table.Shows first field ↔ table.Shows second field := by
  refine exists_congr fun name => exists_congr fun text => and_congr_left fun told => ?_
  rw [same name (told.names unmarked) told.ne_placeholder]

end TableSchema

namespace Fields

variable {table : TableSchema} {field : String} {row : Fields}

/-- Taking out a field changes no name but those of it. -/
theorem getElem?_without_of_ne {name other : String} (row : Fields)
    (apart : unmarkedName other ≠ unmarkedName name) : (row.without name)[other]? = row[other]? := by
  rw [getElem?_without_eq]
  refine if_neg ?_
  rintro (rfl | rfl)
  · exact apart (unmarkedName_baseName name)
  · exact apart ((unmarkedName_listSpelling _).trans (unmarkedName_baseName name))

/-- Putting a field changes no name but those of it. -/
theorem getElem?_put_of_ne {name other : String} (value : String) (real : other ≠ placeholder)
    (apart : unmarkedName other ≠ unmarkedName name) : (row.put name value)[other]? = row[other]? := by
  have kept : (row.erase placeholder)[other]? = row[other]? := by
    rw [Std.ExtTreeMap.getElem?_erase]
    simp [real.symm]
  by_cases standIn : name = placeholder
  · rw [put, if_pos standIn]
  · rw [put, if_neg standIn, set, ByName.getElem?_insert, if_neg fun same => apart (congrArg _ same.symm),
      getElem?_without_of_ne _ apart, kept]

/-- Putting a field that tells a value of a leaf makes the row show one. -/
theorem shows_put {name text : String} (told : table.Tells name text field) :
    table.Shows (row.put name text) field := by
  refine ⟨name, text, ?_, told⟩
  rw [put, if_neg told.ne_placeholder, set, Std.ExtTreeMap.getElem?_insert_self]

/-- Putting a field that does not concern a leaf leaves what the row shows of it. -/
theorem shows_put_iff (unmarked : Text.beforeLast listMark field = none) {name text : String}
    (other : ¬ table.Names name field) :
    table.Shows (row.put name text) field ↔ table.Shows row field := by
  refine TableSchema.shows_congr unmarked fun own named real => ?_
  unfold TableSchema.Names at other named
  cases entries : table.mapLeaves with
  | some leaves =>
      simp only [entries, Option.isSome_some, ↓reduceIte, ne_eq, not_not] at other
      rw [put, if_pos other]
  | none =>
      simp only [entries, Option.isSome_none, Bool.false_eq_true, ↓reduceIte] at other named
      exact getElem?_put_of_ne text real fun same => other (same.symm.trans named)

private theorem shows_laid_iff (unmarked : Text.beforeLast listMark field = none)
    {fields : List (String × String)} (others : ∀ one ∈ fields, ¬ table.Names one.1 field) :
    table.Shows (row.laid fields) field ↔ table.Shows row field := by
  induction fields generalizing row with
  | nil => rfl
  | cons one fields ih =>
      rw [List.forall_mem_cons] at others
      exact (ih others.2).trans (shows_put_iff unmarked others.1)

/-- Fields that tell a value of a leaf wherever they concern it, and do so somewhere, make a row show
one. -/
theorem shows_laid (unmarked : Text.beforeLast listMark field = none) {fields : List (String × String)}
    (told : ∀ one ∈ fields, table.Names one.1 field → table.Tells one.1 one.2 field)
    (some : ∃ one ∈ fields, table.Names one.1 field) : table.Shows (row.laid fields) field := by
  induction fields using List.reverseRecOn with
  | nil =>
      obtain ⟨_, inside, _⟩ := some
      cases inside
  | append_singleton fields last ih =>
      rw [List.forall_mem_append, List.forall_mem_singleton] at told
      rw [laid, List.foldl_concat]
      by_cases names : table.Names last.1 field
      · exact shows_put (told.2 names)
      · refine (shows_put_iff unmarked names).mpr (ih told.1 ?_)
        obtain ⟨one, inside, named⟩ := some
        rcases List.mem_append.mp inside with before | own
        · exact ⟨one, before, named⟩
        · rw [List.mem_singleton.mp own] at named
          exact absurd named names

/-- Taking out fields that do not concern a leaf leaves what the row shows of it. -/
theorem shows_withoutAll_iff (unmarked : Text.beforeLast listMark field = none) {names : List String}
    (noEntries : table.mapLeaves = none) (others : ∀ name ∈ names, unmarkedName name ≠ field) :
    table.Shows (row.withoutAll names) field ↔ table.Shows row field := by
  induction names generalizing row with
  | nil => rfl
  | cons name names ih =>
      rw [List.forall_mem_cons] at others
      refine (ih others.2).trans (TableSchema.shows_congr unmarked fun own named _ => ?_)
      simp only [TableSchema.Names, noEntries, Option.isSome_none, Bool.false_eq_true, ↓reduceIte] at named
      exact getElem?_without_of_ne row fun same => others.1 (same.symm.trans named)

end Fields

namespace StagedEdit

variable {table : TableSchema} {field : String} {edit : StagedEdit} {before after : Fields}

/-- Whether an edit decides what its row shows of a leaf: it creates the row or names the leaf. -/
def Decides (edit : StagedEdit) (table : TableSchema) (field : String) : Prop :=
  edit.operation = .create ∨ ∃ name ∈ edit.fields, table.Names name field

/-- An edit that does not decide a leaf leaves what the row shows of it. -/
theorem shows_iff_of_not_decides (unmarked : Text.beforeLast listMark field = none)
    (undecided : ¬ edit.Decides table field) (applied : edit.state.apply (some before) = some after) :
    table.Shows after field ↔ table.Shows before field := by
  obtain ⟨operation, fields⟩ := edit
  unfold Decides at undecided
  simp only [not_or, not_exists, not_and] at undecided
  obtain ⟨creates, others⟩ := undecided
  have unnamed : ∀ one ∈ fields.toList, ¬ table.Names one.1 field := fun one member =>
    others one.1 (by
      rw [Std.ExtTreeMap.mem_iff_isSome_getElem?, Std.ExtTreeMap.mem_toList_iff_getElem?_eq_some.mp member]
      rfl)
  cases operation with
  | create => exact absurd rfl creates
  | update =>
      cases applied
      exact Fields.shows_laid_iff unmarked unnamed
  | none =>
      cases applied
      exact Fields.shows_laid_iff unmarked unnamed
  | delete =>
      unfold state RowState.ofEdit at applied
      cases whole : fields.areNone with
      | true =>
          simp only [whole] at applied
          cases applied
      | false =>
          simp only [whole, Bool.false_eq_true, ↓reduceIte] at applied
          cases applied
          obtain ⟨name, inside, real⟩ := Fields.areNone_eq_false_iff.mp whole
          have noEntries : table.mapLeaves = none := by
            by_contra entries
            refine others name inside ?_
            rw [TableSchema.Names, if_pos (Option.isSome_iff_ne_none.mpr entries)]
            exact real
          refine Fields.shows_withoutAll_iff unmarked noEntries fun base member => ?_
          rw [Std.ExtTreeSet.mem_toList, Patch.mem_removed_removing, List.mem_map] at member
          obtain ⟨spelled, listed, rfl⟩ := member
          have own := others spelled (Std.ExtTreeMap.mem_keys.mp listed)
          rw [TableSchema.Names, noEntries] at own
          rwa [unmarkedName_baseName]

/-- An update that names a leaf leaves a value of it if it tells one wherever it names the leaf. -/
theorem shows_of_tells (unmarked : Text.beforeLast listMark field = none)
    (updates : edit.operation = .update)
    (named : ∃ name ∈ edit.fields, table.Names name field)
    (told : ∀ name text, edit.fields[name]? = some text → table.Names name field →
      table.Tells name text field)
    (applied : edit.state.apply (some before) = some after) : table.Shows after field := by
  obtain ⟨operation, fields⟩ := edit
  cases updates
  cases applied
  refine Fields.shows_laid unmarked (fun one member => told one.1 one.2
    (Std.ExtTreeMap.mem_toList_iff_getElem?_eq_some.mp member)) ?_
  obtain ⟨name, inside, own⟩ := named
  obtain ⟨text, held⟩ := Option.isSome_iff_exists.mp (Std.ExtTreeMap.mem_iff_isSome_getElem?.mp inside)
  exact ⟨(name, text), Std.ExtTreeMap.mem_toList_iff_getElem?_eq_some.mpr held, own⟩

end StagedEdit

namespace StagedEdits

variable {table : TableSchema} {field : String} {edits : List StagedEdit} {after : Fields}

/-- A created row was created by the last of its edits, or was there before it and changed by it. -/
theorem created_or_changed {edit : StagedEdit}
    (net : netState (edits ++ [edit]) = some (.present after)) :
    edit.operation = .create ∧ after = edit.fields ∨
      ∃ before, netState edits = some (.present before) ∧
        edit.operation ≠ .create ∧ edit.state.apply (some before) = some after := by
  rw [netState_concat, Option.some.injEq] at net
  generalize netState edits = earlier at net ⊢
  by_cases creates : edit.operation = .create
  · have made : edit.state = .present edit.fields := by
      rw [StagedEdit.state, creates]
      rfl
    rw [made] at net
    refine Or.inl ⟨creates, ?_⟩
    rcases earlier with _ | ⟨⟩ | ⟨⟩ | ⟨⟩ <;> cases net <;> rfl
  · have changes : edit.state = .deleted ∨ ∃ patch, edit.state = .overlay patch := by
      unfold StagedEdit.state RowState.ofEdit
      cases operated : edit.operation with
      | create => exact absurd operated creates
      | update => exact Or.inr ⟨_, rfl⟩
      | none => exact Or.inr ⟨_, rfl⟩
      | delete =>
          by_cases whole : edit.fields.areNone = true
          · exact Or.inl (if_pos whole)
          · exact Or.inr ⟨_, if_neg whole⟩
    right
    rcases changes with gone | ⟨patch, patched⟩
    · rw [gone] at net
      rcases earlier with _ | ⟨⟩ | ⟨⟩ | ⟨⟩ <;> cases net
    · rw [patched] at net ⊢
      rcases earlier with _ | fields | _ | _
      · cases net
      · cases net
        exact ⟨fields, rfl, creates, rfl⟩
      · cases net
      · cases net

/-- What a created row shows of a leaf is what it showed before those of its last edits that do not
decide the leaf. -/
theorem exists_present_of_append (unmarked : Text.beforeLast listMark field = none)
    {last : List StagedEdit} (net : netState (edits ++ last) = some (.present after))
    (undecided : ∀ edit ∈ last, ¬ edit.Decides table field) :
    ∃ before, netState edits = some (.present before) ∧
      (table.Shows after field ↔ table.Shows before field) := by
  induction last using List.reverseRecOn generalizing after with
  | nil =>
      rw [List.append_nil] at net
      exact ⟨after, net, Iff.rfl⟩
  | append_singleton last edit ih =>
      rw [List.forall_mem_append, List.forall_mem_singleton] at undecided
      rw [← List.append_assoc] at net
      rcases created_or_changed net with ⟨creates, _⟩ | ⟨middle, netBefore, _, applied⟩
      · exact absurd (Or.inl creates) undecided.2
      · obtain ⟨before, own, same⟩ := ih netBefore undecided.1
        exact ⟨before, own, (StagedEdit.shows_iff_of_not_decides unmarked undecided.2 applied).trans same⟩

end StagedEdits

end ConfigVetting
