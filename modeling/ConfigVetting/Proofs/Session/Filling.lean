import ConfigVetting.Proofs.Session.Existence
import ConfigVetting.Proofs.Session.Tracing
import ConfigVetting.Proofs.Staging.Showing

/-! # Mandatory data over a run

What a created row has in a mandatory leaf is decided by the last edit of the run that creates the row or
names the leaf. Batches are judged operation by operation, the fields of all edits of a row together, and
a field of a delete only counts if it tells a value. So a row lacks a value exactly if that edit left it
without one, and an edit of an accepted batch can only do so by creating the row anew after another edit of
its batch, or by naming the leaf without telling a value
(`ConfigVetting.Session.Accepts.fills_mandatory_iff`).
-/

namespace ConfigVetting

open StagedEdits

namespace KeyedEdit

/-- Whether an edit is one of a row and decides what the row shows of a leaf. -/
def Decides (keyed : KeyedEdit) (table : TableSchema) (rowKey field : String) : Prop :=
  (keyed.table.name = table.name ∧ keyed.rowKey = rowKey) ∧ keyed.staged.Decides table field

/-- How an edit of an accepted batch comes to leave its row without a value in a mandatory leaf. -/
inductive Drops (front : List KeyedEdit) (one : KeyedEdit) (table : TableSchema) (field : String) :
    Prop where
  /-- Another edit of the batch created the row with a value before, and both were judged together. -/
  | recreated (creates : one.edit.operation = .create) {other : KeyedEdit} (before : other ∈ front)
      (created : other.edit.operation = .create)
      (ofRow : other.table.name = one.table.name ∧ other.rowKey = one.rowKey)
      (shows : table.Shows other.edit.fields field)
  /-- The edit names the leaf by a field that tells no value of it. -/
  | untold (patches : one.edit.patchesRow = true) {name text : String}
      (held : one.edit.fields[name]? = some text) (names : table.Names name field)
      (untold : ¬ table.Tells name text field)

end KeyedEdit

/-- Where in a run a row is left without a value in a leaf: by the edit of a batch that decides the leaf
last. -/
structure Loss (schema : Schema) (table : TableSchema) (rowKey field : String)
    (batches : List (List Edit)) where
  earlier : List (List Edit)
  batch : List Edit
  later : List (List Edit)
  front : List KeyedEdit
  one : KeyedEdit
  back : List KeyedEdit
  fields : Fields
  ran : batches = earlier ++ batch :: later
  split : schema.inOrder batch = front ++ one :: back
  decides : one.Decides table rowKey field
  last : ∀ other ∈ back ++ later.flatMap schema.inOrder, ¬ other.Decides table rowKey field
  left : netState (KeyedEdit.stagedOn table.name rowKey
    (earlier.flatMap schema.inOrder ++ front ++ [one])) = some (.present fields)
  lacks : ¬ table.Fills rowKey fields field
  drops : one.Drops front table field

/-- A batch that does not decide the leaf leaves a loss as it is. -/
def Loss.concat {schema : Schema} {table : TableSchema} {rowKey field : String} {batches : List (List Edit)}
    (loss : Loss schema table rowKey field batches) {edits : List Edit}
    (undecided : ∀ one ∈ schema.inOrder edits, ¬ one.Decides table rowKey field) :
    Loss schema table rowKey field (batches ++ [edits]) where
  __ := loss
  later := loss.later ++ [edits]
  ran := (congrArg (· ++ [edits]) loss.ran).trans (by rw [List.append_assoc, List.cons_append])
  last := by
    rw [List.flatMap_append, List.flatMap_singleton, ← List.append_assoc, List.forall_mem_append]
    exact ⟨loss.last, undecided⟩

namespace KeyedEdit

variable {table : TableSchema} {rowKey field : String} {edits : List KeyedEdit}

private theorem not_decides_of_mem_stagedOn (undecided : ∀ one ∈ edits, ¬ one.Decides table rowKey field) :
    ∀ edit ∈ stagedOn table.name rowKey edits, ¬ edit.Decides table field := by
  intro edit member decides
  obtain ⟨one, inside, rfl⟩ := List.mem_map.mp member
  obtain ⟨inside, ofRow⟩ := List.mem_filter.mp inside
  exact undecided one inside ⟨by simpa [Group.isOfRow] using ofRow, decides⟩

/-- The last of some edits that decides a leaf, if any does. -/
theorem exists_last_deciding (some : ∃ one ∈ edits, one.Decides table rowKey field) :
    ∃ front one back, edits = front ++ one :: back ∧ one.Decides table rowKey field ∧
      ∀ other ∈ back, ¬ other.Decides table rowKey field := by
  induction edits using List.reverseRecOn with
  | nil =>
      obtain ⟨_, inside, _⟩ := some
      cases inside
  | append_singleton edits last ih =>
      by_cases decides : last.Decides table rowKey field
      · exact ⟨edits, last, [], rfl, decides, fun _ inside => absurd inside List.not_mem_nil⟩
      · obtain ⟨one, inside, own⟩ := some
        have before : one ∈ edits := (List.mem_append.mp inside).resolve_right fun isLast =>
          decides (List.mem_singleton.mp isLast ▸ own)
        obtain ⟨front, found, back, rfl, foundDecides, others⟩ := ih ⟨one, before, own⟩
        refine ⟨front, found, back ++ [last], by simp, foundDecides, ?_⟩
        rw [List.forall_mem_append, List.forall_mem_singleton]
        exact ⟨others, decides⟩

open ConfigVetting.Group in
/-- What an edit has under a name stands in the row of its group if no later edit sets it. -/
theorem exists_gathered_of_last {front back : List KeyedEdit} {one : KeyedEdit} {operation : Operation}
    {name text : String} (operated : one.edit.operation = operation)
    (held : one.edit.fields[name]? = some text)
    (unset : ∀ other ∈ back, other.table.name = one.table.name ∧ other.rowKey = one.rowKey →
      other.edit.fields[name]? = none) :
    ∃ fields, gathered none (editsOf operation one.table.name one.rowKey (front ++ one :: back)) =
        some fields ∧ fields[name]? = some text := by
  induction back using List.reverseRecOn with
  | nil =>
      have whole := gathered_concat none (editsOf operation one.table.name one.rowKey front) one
      have ofGroup := editsOf_concat operation one.table.name one.rowKey front one
      rw [if_pos ⟨operated, rfl, rfl⟩] at ofGroup
      rw [← ofGroup] at whole
      refine ⟨_, whole, ?_⟩
      rw [Std.ExtTreeMap.getElem?_union, held]
      rfl
  | append_singleton back last ih =>
      rw [List.forall_mem_append, List.forall_mem_singleton] at unset
      obtain ⟨between, whole, own⟩ := ih unset.1
      rw [← List.cons_append, ← List.append_assoc]
      exact exists_gathered_concat last whole own fun _ ofRow => unset.2 ofRow

/-- An edit that changes a row and leaves it there patches it. -/
theorem patchesRow_of_apply {one : KeyedEdit} {before after : Fields}
    (changes : one.edit.operation ≠ .create) (acts : one.edit.operation ≠ .none)
    (applied : one.staged.state.apply (some before) = some after) : one.edit.patchesRow = true := by
  change (RowState.ofEdit one.edit.operation one.edit.fields).apply (some before) = some after at applied
  unfold Edit.patchesRow
  cases operated : one.edit.operation with
  | create => exact absurd operated changes
  | none => exact absurd operated acts
  | update => rfl
  | delete =>
      cases whole : one.edit.fields.areNone with
      | true => simp [operated, RowState.ofEdit, whole, RowState.apply] at applied
      | false => rfl

variable {schema : Schema}

/-- A row that is created has edits, and their keys lead to its table. -/
theorem exists_expanded {edits : List KeyedEdit} (isSound : ∀ one ∈ edits, one.IsSound schema)
    (known : schema.table? table.name = some table) {state : RowState}
    (net : netState (stagedOn table.name rowKey edits) = some state) :
    ∃ combinations, table.expandKey rowKey = .ok combinations := by
  have touched : stagedOn table.name rowKey edits ≠ [] := by
    intro untouched
    rw [untouched] at net
    cases net
  obtain ⟨edit, member⟩ := List.exists_mem_of_ne_nil _ touched
  obtain ⟨one, listed, rfl⟩ := List.mem_map.mp member
  obtain ⟨inside, ofRow⟩ := List.mem_filter.mp listed
  obtain ⟨ofTable, rfl⟩ : one.table.name = table.name ∧ one.rowKey = rowKey := by
    simpa [Group.isOfRow] using ofRow
  cases Schema.eq_of_name_eq (isSound one inside).known known ofTable
  exact (isSound one inside).expands

end KeyedEdit

namespace Session

variable {engine : Engine} {staged prepared : Staged} {edits : List Edit} {world : World}
  {keyed : List KeyedEdit} {groups : List Group} {table : TableSchema} {rowKey field : String}
  {leaf : LeafSchema}

/-- The rows of each operation of a prepared batch passed as one subject. -/
theorem IsPrepared.exists_passed (processor : engine.processor = .ofSchema engine.setting.schema)
    (isPrepared : IsPrepared engine staged edits world keyed prepared groups)
    (now : ∀ one ∈ keyed, one.edit.validateNow = true) {one : KeyedEdit} (member : one ∈ keyed)
    (acts : one.edit.operation ≠ .none) :
    ∃ (subject dependent : Document),
      Document.ofRows engine.setting.schema (Group.rowsOf one.edit.operation keyed) = .ok subject ∧
      engine.setting.schema.check subject.roots ((some dependent).map Document.roots)
        one.edit.operation = .ok () := by
  have listed : (one.edit.operation, Group.rowsOf one.edit.operation keyed) ∈
      Group.byOperation (keyed.filter fun keyed => keyed.edit.validateNow) := by
    rw [List.filter_eq_self.mpr now]
    exact Group.mem_byOperation_iff.mpr ⟨⟨one, member, rfl⟩, rfl⟩
  obtain ⟨group, _, before, _, judged⟩ := Except.exists_of_mem_left isPrepared.judged listed
  obtain ⟨dependent, passed⟩ := judged.passed acts
  rw [processor] at passed
  exact ⟨group.subject, dependent, judged.translated, passed⟩

/-- For each edit of a prepared batch that creates a row, some edit that creates the row shows a value of a
mandatory leaf. -/
theorem IsPrepared.exists_shown (sound : engine.setting.schema.IsSound)
    (processor : engine.processor = .ofSchema engine.setting.schema)
    (isPrepared : IsPrepared engine staged edits world keyed prepared groups)
    (now : ∀ one ∈ keyed, one.edit.validateNow = true) {one : KeyedEdit} (member : one ∈ keyed)
    (creates : one.edit.operation = .create) (declared : one.table.leaf? field = some leaf)
    (mandatory : leaf.decl.mandatory = true) (notKey : one.table.isKey field = false) :
    ∃ other ∈ keyed, other.edit.operation = .create ∧
      (other.table.name = one.table.name ∧ other.rowKey = one.rowKey) ∧
        one.table.Shows other.edit.fields field := by
  have oneSound := (isPrepared.isSound_of_mem sound member).1
  have tableSound := (sound _ _ oneSound.known).2
  obtain ⟨combinations, expanded⟩ := oneSound.expands
  obtain ⟨subject, dependent, translated, passed⟩ :=
    isPrepared.exists_passed processor now member (by rw [creates]; nofun)
  rw [creates] at translated passed
  obtain ⟨whole, gathered⟩ := Option.isSome_iff_exists.mp
    (Group.isSome_gathered (Group.mem_editsOf_iff.mpr ⟨member, creates, rfl, rfl⟩))
  have fills : one.table.Fills one.rowKey whole field :=
    Document.fills_of_check tableSound passed translated oneSound.known
      ((Group.getElem?_rowsOf _ _ _ _).trans gathered) expanded declared mandatory
  rcases (TableSchema.fills_iff tableSound.named expanded).mp fills with isKey | ⟨name, text, held, told⟩
  · rw [notKey] at isKey
    cases isKey
  · rcases Group.getElem?_gathered gathered held with ⟨other, inside, own⟩ | nothing
    · obtain ⟨inBatch, created, ofRow⟩ := Group.mem_editsOf_iff.mp inside
      exact ⟨other, inBatch, created, ofRow, name, text, own, told⟩
    · simp at nothing

/-- A delete of a prepared batch tells no value of a mandatory leaf by a name that no later edit of the row
sets. -/
theorem IsPrepared.not_tells_of_delete (sound : engine.setting.schema.IsSound)
    (processor : engine.processor = .ofSchema engine.setting.schema) {front back : List KeyedEdit}
    {one : KeyedEdit}
    (isPrepared : IsPrepared engine staged edits world (front ++ one :: back) prepared groups)
    (now : ∀ other ∈ front ++ one :: back, other.edit.validateNow = true)
    (deletes : one.edit.operation = .delete) (declared : one.table.leaf? field = some leaf)
    (mandatory : leaf.decl.mandatory = true) (notKey : one.table.isKey field = false) {name text : String}
    (held : one.edit.fields[name]? = some text)
    (unset : ∀ other ∈ back, other.table.name = one.table.name ∧ other.rowKey = one.rowKey →
      other.edit.fields[name]? = none) : ¬ one.table.Tells name text field := by
  intro told
  have member : one ∈ front ++ one :: back := List.mem_append_right front List.mem_cons_self
  have oneSound := (isPrepared.isSound_of_mem sound member).1
  obtain ⟨combinations, expanded⟩ := oneSound.expands
  obtain ⟨subject, dependent, translated, passed⟩ :=
    isPrepared.exists_passed processor now member (by rw [deletes]; nofun)
  rw [deletes] at translated passed
  -- The row of the group that was judged still tells what the edit tells.
  obtain ⟨whole, gathered, own⟩ := KeyedEdit.exists_gathered_of_last deletes held unset
  exact Document.not_shows_of_check passed translated oneSound.known
    ((Group.getElem?_rowsOf _ _ _ _).trans gathered) expanded declared mandatory notKey
    ⟨name, text, own, told⟩

/-- An edit that decides a mandatory leaf last in its batch, and leaves its row without a value of it, drops
the value. -/
theorem IsPrepared.drops (sound : engine.setting.schema.IsSound)
    (processor : engine.processor = .ofSchema engine.setting.schema) {front back : List KeyedEdit}
    {one : KeyedEdit}
    (isPrepared : IsPrepared engine staged edits world (front ++ one :: back) prepared groups)
    (checked : ∀ other ∈ front ++ one :: back, other.edit.IsChecked)
    (known : engine.setting.schema.table? table.name = some table)
    (declared : table.leaf? field = some leaf) (mandatory : leaf.decl.mandatory = true)
    (decides : one.Decides table rowKey field)
    (last : ∀ other ∈ back, ¬ other.Decides table rowKey field) {earlier : List StagedEdit}
    {fields : Fields} (left : netState (earlier ++ [one.staged]) = some (.present fields))
    (lacks : ¬ table.Fills rowKey fields field) : one.Drops front table field := by
  have member : one ∈ front ++ one :: back := List.mem_append_right front List.mem_cons_self
  have now : ∀ other ∈ front ++ one :: back, other.edit.validateNow = true := fun other inside =>
    (checked other inside).1
  obtain ⟨⟨ofTable, rfl⟩, decidesLeaf⟩ := decides
  have oneSound := (isPrepared.isSound_of_mem sound member).1
  cases Schema.eq_of_name_eq oneSound.known known ofTable
  obtain ⟨combinations, expanded⟩ := oneSound.expands
  have tableSound := (sound _ _ known).2
  rw [TableSchema.fills_iff tableSound.named expanded, not_or, Bool.not_eq_true] at lacks
  obtain ⟨notKey, unshown⟩ := lacks
  rcases created_or_changed left with ⟨creates, rfl⟩ | ⟨before, _, changes, applied⟩
  · obtain ⟨other, inBatch, created, ofRow, shows⟩ :=
      isPrepared.exists_shown sound processor now member creates declared mandatory notKey
    refine .recreated creates ?_ created ofRow shows
    rcases List.mem_append.mp inBatch with before | behind
    · exact before
    · rcases List.mem_cons.mp behind with rfl | later
      · exact absurd shows unshown
      · exact absurd ⟨ofRow, Or.inl created⟩ (last other later)
  · have patches : one.edit.patchesRow = true :=
      KeyedEdit.patchesRow_of_apply changes (checked one member).2 applied
    obtain ⟨name, inside, names⟩ : ∃ name ∈ one.edit.fields, one.table.Names name field :=
      decidesLeaf.resolve_left changes
    cases operated : one.edit.operation with
    | create => exact absurd operated changes
    | none => exact absurd operated (checked one member).2
    | update =>
        by_contra kept
        refine unshown (StagedEdit.shows_of_tells (tableSound.leaves field leaf declared).2 operated
          ⟨name, inside, names⟩ (fun name text held names => ?_) applied)
        by_contra untold
        exact kept (.untold patches held names untold)
    | delete =>
        obtain ⟨text, held⟩ := Option.isSome_iff_exists.mp
          (Std.ExtTreeMap.mem_iff_isSome_getElem?.mp inside)
        refine .untold patches held names (isPrepared.not_tells_of_delete sound processor now operated
          declared mandatory notKey held fun other behind ofRow => ?_)
        by_contra sets
        have inOther : name ∈ other.edit.fields :=
          Std.ExtTreeMap.mem_iff_isSome_getElem?.mpr (Option.isSome_iff_ne_none.mpr sets)
        exact last other behind ⟨ofRow, Or.inr ⟨name, inOther, names⟩⟩

/-- A batch that was prepared and whose edits are all checked is staged as it was submitted. -/
theorem IsPrepared.inOrder_eq
    (isPrepared : IsPrepared engine staged edits world keyed prepared groups)
    (now : ∀ one ∈ keyed, one.edit.validateNow = true) : engine.setting.schema.inOrder edits = keyed := by
  have noContext : keyed.filter (fun one => !one.edit.validateNow) = [] :=
    List.filter_eq_nil_iff.mpr fun one member => by simp [now one member]
  unfold Schema.inOrder
  rw [Schema.resolved_eq isPrepared.resolved, noContext, List.nil_append, List.filter_eq_self.mpr now]

/-- A created row that has no value in a mandatory leaf after a batch that decides the leaf lost it by an edit
of the batch. -/
theorem IsPrepared.exists_loss (sound : engine.setting.schema.IsSound)
    (processor : engine.processor = .ofSchema engine.setting.schema)
    (isPrepared : IsPrepared engine staged edits world keyed prepared groups)
    (checked : ∀ one ∈ keyed, one.edit.IsChecked)
    (known : engine.setting.schema.table? table.name = some table)
    (declared : table.leaf? field = some leaf) (mandatory : leaf.decl.mandatory = true)
    {combinations : List (List String)} (expanded : table.expandKey rowKey = .ok combinations)
    (decided : ∃ one ∈ keyed, one.Decides table rowKey field) {earlier : List (List Edit)} {fields : Fields}
    (net : netState (KeyedEdit.stagedOn table.name rowKey
      (earlier.flatMap engine.setting.schema.inOrder ++ keyed)) = some (.present fields))
    (lacks : ¬ table.Fills rowKey fields field) :
    Nonempty (Loss engine.setting.schema table rowKey field (earlier ++ [edits])) := by
  have tableSound := (sound _ _ known).2
  obtain ⟨front, one, back, rfl, decides, last⟩ := KeyedEdit.exists_last_deciding decided
  rw [← List.singleton_append, ← List.append_assoc, ← List.append_assoc, KeyedEdit.stagedOn_append] at net
  obtain ⟨before, left, same⟩ := exists_present_of_append (tableSound.leaves field leaf declared).2 net
    (KeyedEdit.not_decides_of_mem_stagedOn last)
  have lacksBefore : ¬ table.Fills rowKey before field :=
    mt (TableSchema.fills_congr tableSound.named expanded same).mpr lacks
  have leftBy := left
  rw [KeyedEdit.stagedOn_append, KeyedEdit.stagedOn_singleton, if_pos decides.1] at leftBy
  exact ⟨{
    earlier, batch := edits, later := [], front, one, back, fields := before
    ran := rfl
    split := isPrepared.inOrder_eq fun other inside => (checked other inside).1
    decides
    last := by rwa [List.flatMap_nil, List.append_nil]
    left
    lacks := lacksBefore
    drops := isPrepared.drops sound processor checked known declared mandatory decides last leftBy
      lacksBefore }⟩

namespace Accepts

variable {rows : ByName Fields} {batches : List (List Edit)} {session : Session} {fields : Fields}

private theorem isSound_of_mem (sound : engine.setting.schema.IsSound)
    (run : Accepts engine rows batches session) :
    ∀ one ∈ batches.flatMap engine.setting.schema.inOrder, one.IsSound engine.setting.schema := by
  refine run.invariant sound
    (fun earlier _ => ∀ one ∈ earlier, one.IsSound engine.setting.schema) (by simp) ?_
  intro keyed earlier _ _ isSound _ before
  rw [List.forall_mem_append, List.forall_mem_singleton]
  exact ⟨before, isSound⟩

/-- A created row that has no value in a mandatory leaf lost it by an edit of the run. -/
theorem exists_loss (sound : engine.setting.schema.IsSound)
    (processor : engine.processor = .ofSchema engine.setting.schema)
    (run : Accepts engine rows batches session)
    (checked : ∀ edits ∈ batches, ∀ edit ∈ edits, edit.IsChecked)
    (known : engine.setting.schema.table? table.name = some table)
    (declared : table.leaf? field = some leaf) (mandatory : leaf.decl.mandatory = true)
    {combinations : List (List String)} (expanded : table.expandKey rowKey = .ok combinations)
    (net : netState (KeyedEdit.stagedOn table.name rowKey
      (batches.flatMap engine.setting.schema.inOrder)) = some (.present fields))
    (lacks : ¬ table.Fills rowKey fields field) :
    Nonempty (Loss engine.setting.schema table rowKey field batches) := by
  have tableSound := (sound _ _ known).2
  induction run generalizing fields with
  | start id => cases net
  | rejected _ _ _ _ _ ih => exact ih checked net lacks
  | @batch batches session _ edits world stored accepted ih =>
      rw [List.forall_mem_append, List.forall_mem_singleton] at checked
      obtain ⟨keyed, groups, isPrepared⟩ := exists_isPrepared accepted
      have checkedKeyed : ∀ one ∈ keyed, one.edit.IsChecked := fun one member =>
        checked.2 one.edit (isPrepared.isSound_of_mem sound member).2
      have ordered := isPrepared.inOrder_eq fun one member => (checkedKeyed one member).1
      rw [List.flatMap_append, List.flatMap_singleton, ordered] at net
      by_cases decided : ∃ one ∈ keyed, one.Decides table rowKey field
      · exact isPrepared.exists_loss sound processor checkedKeyed known declared mandatory expanded decided
          net lacks
      · push Not at decided
        rw [KeyedEdit.stagedOn_append] at net
        obtain ⟨before, netBefore, same⟩ := exists_present_of_append
          (tableSound.leaves field leaf declared).2 net (KeyedEdit.not_decides_of_mem_stagedOn decided)
        obtain ⟨loss⟩ := ih checked.1 netBefore
          (mt (TableSchema.fills_congr tableSound.named expanded same).mpr lacks)
        exact ⟨loss.concat (by rwa [ordered])⟩

end Accepts

end Session

/-- A row that was left without a value in a leaf by the last edit that decides it has none in the
end. -/
theorem Loss.not_fills {schema : Schema} {table : TableSchema} {rowKey field : String}
    {batches : List (List Edit)} (loss : Loss schema table rowKey field batches)
    (named : table.segments ≠ []) (unmarked : Text.beforeLast listMark field = none)
    {combinations : List (List String)} (expanded : table.expandKey rowKey = .ok combinations)
    {fields : Fields}
    (net : netState (KeyedEdit.stagedOn table.name rowKey (batches.flatMap schema.inOrder)) =
      some (.present fields)) : ¬ table.Fills rowKey fields field := by
  obtain ⟨earlier, batch, later, front, one, back, _, rfl, split, _, last, left, lacks, _⟩ := loss
  have whole : (earlier ++ batch :: later).flatMap schema.inOrder =
      earlier.flatMap schema.inOrder ++ front ++ [one] ++ (back ++ later.flatMap schema.inOrder) := by
    rw [List.flatMap_append, List.flatMap_cons, split]
    simp only [List.append_assoc, List.cons_append, List.nil_append]
  rw [whole, KeyedEdit.stagedOn_append] at net
  obtain ⟨before, leftThen, same⟩ := exists_present_of_append unmarked net
    (KeyedEdit.not_decides_of_mem_stagedOn last)
  cases leftThen.symm.trans left
  exact mt (TableSchema.fills_congr named expanded same).mp lacks

namespace Session.Accepts

variable {engine : Engine} {rows : ByName Fields} {batches : List (List Edit)} {session : Session}
  {table : TableSchema} {rowKey field : String} {leaf : LeafSchema} {fields : Fields}

/-- **Mandatory data.** After every run of checked batches, the list instances of a created row have
values in a mandatory leaf unless the edit that decides the leaf last drops them. -/
theorem fills_mandatory_iff [PatternReader] {modules : List ModuleDecl} {delimiter : String}
    (built : Schema.build modules delimiter = .ok engine.setting.schema)
    (processor : engine.processor = .ofSchema engine.setting.schema)
    (run : Accepts engine rows batches session)
    (checked : ∀ edits ∈ batches, ∀ edit ∈ edits, edit.IsChecked)
    (known : engine.setting.schema.table? table.name = some table)
    (declared : table.leaf? field = some leaf) (mandatory : leaf.decl.mandatory = true)
    (net : session.staged.requests.state? table.name rowKey = some (.present fields)) :
    table.Fills rowKey fields field ↔
      ¬ Nonempty (Loss engine.setting.schema table rowKey field batches) := by
  have sound := Schema.isSound_of_build built
  have tableSound := (sound _ _ known).2
  unfold state? at net
  rw [run.edits_eq sound] at net
  obtain ⟨combinations, expanded⟩ :=
    KeyedEdit.exists_expanded (run.isSound_of_mem sound) known net
  constructor
  · rintro fills ⟨loss⟩
    exact loss.not_fills tableSound.named (tableSound.leaves field leaf declared).2 expanded net fills
  · intro none
    by_contra lacks
    exact none (run.exists_loss sound processor checked known declared mandatory expanded net lacks)

/-- Ports each of which needs lanes. -/
def lanesTable : TableDecl where
  name := "PORT"
  keyPattern := "PORT|\x7bname\x7d"
  leaves := [{ name := "lanes", mandatory := true, isList := true }, { name := "mtu" }]

/-- An engine for ports with lanes. -/
def lanesEngine : Engine :=
  Engine.ofModules [{ name := "m", tables := [lanesTable] }]

/-- A batch that creates a port with two lanes, and one with another edit. -/
def lanesBatches (edit : Edit) : List (List Edit) :=
  [[{ operation := .create, key := "PORT|x", fields := (∅ : Fields).insert "lanes" "0,1" }], [edit]]

private theorem exists_lanesTable : ∃ table leaf, lanesEngine.setting.schema.table? "PORT" = some table ∧
    table.name = "PORT" ∧ table.leaf? "lanes" = some leaf ∧ leaf.decl.mandatory = true ∧
      table.segments ≠ [] ∧ table.isKey "lanes" = false ∧ table.expandKey "x" = .ok [["x"]] ∧
        table.Tells "lanes" "0,1" "lanes" := by
  have facts : (lanesEngine.setting.schema.table? "PORT").any fun table =>
      table.name = "PORT" ∧ ((table.leaf? "lanes").any fun leaf => leaf.decl.mandatory) ∧
        table.segments ≠ [] ∧ table.isKey "lanes" = false ∧
          (table.expandKey "x").toOption = some [["x"]] ∧
            "0" ∈ (Node.tree (.plain "" .list) (table.fieldNodes "lanes" "0,1")).leafValues "lanes" := by
    decide +kernel
  obtain ⟨table, known, facts⟩ := (Option.any_eq_true _ _).mp facts
  obtain ⟨named, declared, segments, notKey, expanded, told⟩ := of_decide_eq_true facts
  obtain ⟨leaf, declared, mandatory⟩ := (Option.any_eq_true _ _).mp declared
  refine ⟨table, leaf, known, named, declared, mandatory, segments, notKey, ?_, "0", Or.inl told⟩
  cases expands : table.expandKey "x" with
  | ok combinations =>
      rw [expands] at expanded
      exact congrArg Except.ok (Option.some.inj expanded)
  | error rejection =>
      rw [expands] at expanded
      cases expanded

private theorem exists_present_of_any {state : Option RowState} {holds : Fields → Bool}
    (found : state.any fun state => state.isPresent && holds ((state.apply none).getD ∅)) :
    ∃ fields, state = some (.present fields) ∧ holds fields = true := by
  obtain ⟨net, rfl, found⟩ := (Option.any_eq_true _ _).mp found
  obtain ⟨present, own⟩ := Bool.and_eq_true_iff.mp found
  cases net with
  | present fields => exact ⟨fields, rfl, own⟩
  | overlay patch => cases present
  | deleted => cases present

/-- A port that is created with lanes has lanes after a change of something else. -/
theorem fills_of_otherUpdate :
    let batches := lanesBatches
      { operation := .update, key := "PORT|x", fields := (∅ : Fields).insert "mtu" "9100" }
    ∃ table session fields, lanesEngine.setting.schema.table? "PORT" = some table ∧
      Accepts lanesEngine bareWorld.store.rows batches session ∧
      session.staged.requests.state? table.name "x" = some (.present fields) ∧
      table.Fills "x" fields "lanes" ∧
      ¬ Nonempty (Loss lanesEngine.setting.schema table "x" "lanes" batches) := by
  intro batches
  obtain ⟨table, leaf, known, named, declared, mandatory, segments, _, expanded, told⟩ :=
    exists_lanesTable
  have faultless : (Schema.build [{ name := "m", tables := [lanesTable] }]
      Schema.usualDelimiter).isOk := by
    decide +kernel
  obtain ⟨session, run, found⟩ : ∃ session, Accepts lanesEngine bareWorld.store.rows batches session ∧
      (session.staged.requests.state? "PORT" "x").any fun state =>
        state.isPresent && ((state.apply none).getD ∅)["lanes"]? = some "0,1" :=
    ⟨_, .batch (.batch (.start "s") _ bareWorld rfl (by decide +kernel)) _ bareWorld rfl
      (by decide +kernel), by decide +kernel⟩
  obtain ⟨fields, net, held⟩ :=
    @exists_present_of_any _ (fun fields => fields["lanes"]? = some "0,1") found
  have fills : table.Fills "x" fields "lanes" := (TableSchema.fills_iff segments expanded).mpr
    (Or.inr ⟨"lanes", "0,1", of_decide_eq_true held, told⟩)
  rw [← named] at net
  exact ⟨table, session, fields, known, run, net, fills,
    (run.fills_mandatory_iff (Schema.build_eq_ofModules faultless) rfl (by decide +kernel)
      (named.symm ▸ known) declared mandatory net).mp fills⟩

/-- A port that is created with lanes has none after its lanes were deleted under a blank text. -/
theorem not_fills_of_blankDelete :
    let batches := lanesBatches
      { operation := .delete, key := "PORT|x", fields := (∅ : Fields).insert "lanes" "" }
    ∃ table leaf session fields, lanesEngine.setting.schema.table? "PORT" = some table ∧
      table.leaf? "lanes" = some leaf ∧ leaf.decl.mandatory = true ∧
      (∀ edits ∈ batches, ∀ edit ∈ edits, edit.IsChecked) ∧
      Accepts lanesEngine bareWorld.store.rows batches session ∧
      session.staged.requests.state? table.name "x" = some (.present fields) ∧
      ¬ table.Fills "x" fields "lanes" := by
  intro batches
  obtain ⟨table, leaf, known, named, declared, mandatory, segments, notKey, expanded, _⟩ :=
    exists_lanesTable
  obtain ⟨session, run, found⟩ : ∃ session, Accepts lanesEngine bareWorld.store.rows batches session ∧
      (session.staged.requests.state? "PORT" "x").any fun state =>
        state.isPresent && ((state.apply none).getD ∅).isEmpty :=
    ⟨_, .batch (.batch (.start "s") _ bareWorld rfl (by decide +kernel)) _ bareWorld rfl
      (by decide +kernel), by decide +kernel⟩
  obtain ⟨fields, net, blank⟩ := @exists_present_of_any _ Std.ExtTreeMap.isEmpty found
  rw [← named] at net
  refine ⟨table, leaf, session, fields, known, declared, mandatory, by decide +kernel, run, net, ?_⟩
  rw [TableSchema.fills_iff segments expanded]
  rintro (isKey | ⟨name, text, held, _⟩)
  · rw [notKey] at isKey
    cases isKey
  · rw [Std.ExtTreeMap.isEmpty_iff.mp blank] at held
    simp at held

end Session.Accepts

end ConfigVetting
