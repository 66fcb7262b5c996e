import ConfigVetting.Engine
import ConfigVetting.Proofs.Document.Distinct
import ConfigVetting.Proofs.Document.Remerging
import ConfigVetting.Proofs.Document.Repetition

/-! # Documents to look up in and to merge

A list instance is looked up by its key, and the first one counts; the members of a leaf-list are replaced
as a whole, at the place of the first one. So both rely on documents whose list instances have keys of their
own and whose leaf-lists have their members side by side. The document of rows is of that form exactly if
its tables keep the rows apart and no row scatters a leaf-list over both spellings of its name
(`ConfigVetting.Document.isWellFormed_iff`).
-/

namespace ConfigVetting

/-! ## Items side by side -/

/-- The items of a class are those in front if no other item has any of them behind it. -/
theorem filter_eq_takeWhile {α : Type} {p : α → Bool} {items : List α}
    (front : ∀ before item after, items = before ++ item :: after → p item = false → after.filter p = []) :
    items.filter p = items.takeWhile p := by
  induction items with
  | nil => rfl
  | cons item items ih =>
      by_cases own : p item = true
      · rw [List.filter_cons_of_pos own, List.takeWhile_cons_of_pos own, ih]
        intro before other after split
        exact front (item :: before) other after (by rw [split, List.cons_append])
      · rw [List.filter_cons_of_neg own, List.takeWhile_cons_of_neg own]
        exact front [] item items rfl ((Bool.not_eq_true _).mp own)

/-- The items of a class stand side by side exactly if no other item has some of them before it and some of
them behind it. -/
theorem filter_infix_iff {α : Type} {p : α → Bool} {items : List α} :
    items.filter p <:+: items ↔ ∀ before item after, items = before ++ item :: after → p item = false →
      before.filter p = [] ∨ after.filter p = [] := by
  constructor
  · rintro ⟨front, back, split⟩ before item after rfl other
    have whole : (before ++ item :: after).filter p = before.filter p ++ after.filter p := by
      rw [List.filter_append, List.filter_cons_of_neg (Bool.eq_false_iff.mp other)]
    have all : ∀ {part : List α}, ((before ++ item :: after).filter p).Sublist part →
        (before.filter p).length + (after.filter p).length ≤ (part.filter p).length := by
      intro part inside
      have kept := (inside.filter p).length_le
      rwa [List.filter_filter, List.filter_congr fun _ _ => Bool.and_self _, whole,
        List.length_append] at kept
    have outside : item ∉ (before ++ item :: after).filter p := fun member =>
      Bool.eq_false_iff.mp other (List.mem_filter.mp member).2
    rcases Forest.split_of_notMem split.symm outside with ⟨rest, _, behind⟩ | ⟨rest, _, ahead⟩
    · left
      have bound := all (List.infix_append rest ((before ++ item :: after).filter p) back).sublist
      rw [← behind] at bound
      exact List.eq_nil_of_length_eq_zero (by omega)
    · right
      have bound := all (List.infix_append front ((before ++ item :: after).filter p) rest).sublist
      rw [← ahead] at bound
      exact List.eq_nil_of_length_eq_zero (by omega)
  · intro apart
    induction items with
    | nil => exact List.nil_infix
    | cons item items ih =>
        by_cases own : p item = true
        · -- Once another item has come behind the first one of the class, no more of them come.
          have rest : items.filter p = items.takeWhile p := by
            refine filter_eq_takeWhile fun before other after split differs => ?_
            have sides := apart (item :: before) other after (by rw [split, List.cons_append]) differs
            rw [List.filter_cons_of_pos own] at sides
            exact sides.resolve_left (List.cons_ne_nil _ _)
          rw [List.filter_cons_of_pos own, rest]
          exact ((List.prefix_cons_inj item).mpr (List.takeWhile_prefix p)).isInfix
        · rw [List.filter_cons_of_neg own]
          refine (ih fun before other after split differs => ?_).trans (List.suffix_cons item items).isInfix
          have sides := apart (item :: before) other after (by rw [split, List.cons_append]) differs
          rwa [List.filter_cons_of_neg own] at sides

/-- What is gathered from the items of a class is gathered from all of them, if the others have nothing. -/
theorem flatMap_filter_eq {α β : Type} {items : List α} {p : α → Bool} {gather own : α → List β}
    (others : ∀ item ∈ items, own item = if p item then gather item else []) :
    (items.filter p).flatMap gather = items.flatMap own := by
  induction items with
  | nil => rfl
  | cons item items ih =>
      rw [List.forall_mem_cons] at others
      rw [List.flatMap_cons, ← ih others.2, others.1]
      by_cases inside : p item = true
      · rw [List.filter_cons_of_pos inside, if_pos inside, List.flatMap_cons]
      · rw [List.filter_cons_of_neg inside, if_neg inside, List.nil_append]

namespace TableSchema

variable {table : TableSchema} {fields : Fields} {name text base : String}

/-- Either all nodes of a field are members of a leaf-list or none of them is. -/
theorem Becomes.membersOf {nodes : Forest Unit} (becomes : table.Becomes name text nodes) (base : String) :
    nodes.membersOf base = [] ∨ nodes.membersOf base = nodes := by
  cases becomes with
  | nothing => exact Or.inl rfl
  | entry => exact Or.inl rfl
  | leaf => exact Or.inl rfl
  | members =>
      by_cases own : baseName name = base
      · refine Or.inr (List.filter_eq_self.mpr fun node inside => ?_)
        obtain ⟨_, _, rfl⟩ := List.mem_map.mp inside
        exact Label.isMemberOf_iff.mpr ⟨rfl, own⟩
      · refine Or.inl (List.filter_eq_nil_iff.mpr fun node inside listed => own ?_)
        obtain ⟨_, _, rfl⟩ := List.mem_map.mp inside
        exact (Label.isMemberOf_iff.mp listed).2

private theorem membersOf_fieldNodes_eq_nil_iff :
    (table.fieldNodes name text).membersOf base = [] ↔ table.memberTexts base name text = [] := by
  rw [← map_filter_fieldNodes, List.map_eq_nil_iff, Forest.membersOf]

/-- Whether the members of a leaf-list are scattered in a row: both spellings of its name give it members, and
a field whose name stands between them becomes nodes, too. -/
structure Scatters (table : TableSchema) (fields : Fields) (base : String) : Prop where
  plain : ∃ text, fields[base]? = some text ∧ table.memberTexts base base text ≠ []
  listed : ∃ text, fields[listSpelling base]? = some text ∧
    table.memberTexts base (listSpelling base) text ≠ []
  between : ∃ (name : String) (text : String), fields[name]? = some text ∧ compare base name = .lt ∧
    compare name (listSpelling base) = .lt ∧ table.fieldNodes name text ≠ []

/-- A field that gives a leaf-list members is written in one of its two spellings. -/
theorem eq_or_eq_of_memberTexts (gives : table.memberTexts base name text ≠ []) :
    name = base ∨ name = listSpelling base := by
  by_contra neither
  rw [not_or] at neither
  exact gives (memberTexts_of_ne neither.1 neither.2 text)

/-- Of two fields that give a leaf-list members, the first one has the plain name. -/
theorem eq_and_eq_of_memberTexts {first second : String × String}
    (ordered : compare first.1 second.1 = .lt) (firstGives : table.memberTexts base first.1 first.2 ≠ [])
    (secondGives : table.memberTexts base second.1 second.2 ≠ []) :
    first.1 = base ∧ second.1 = listSpelling base := by
  rcases eq_or_eq_of_memberTexts firstGives with plain | listed
  · refine ⟨plain, (eq_or_eq_of_memberTexts secondGives).resolve_left fun same => ?_⟩
    exact ByName.ne_of_compare_lt ordered (plain.trans same.symm)
  · rcases eq_or_eq_of_memberTexts secondGives with same | same
    · rw [listed, same] at ordered
      exact absurd rfl (ByName.ne_of_compare_lt (Std.TransCmp.lt_trans ordered (compare_listSpelling base)))
    · exact absurd (listed.trans same.symm) (ByName.ne_of_compare_lt ordered)

/-- Scattered members do not stand side by side. -/
theorem Scatters.not_infix (scatters : table.Scatters fields base) (components : List String) :
    ¬ (table.instanceNode fields components).children.membersOf base <:+:
      (table.instanceNode fields components).children := by
  intro together
  obtain ⟨⟨plainText, plain, plainGives⟩, ⟨listText, listed, listGives⟩, name, text, held, behind, ahead,
    some⟩ := scatters
  obtain ⟨before, after, split, sides⟩ := ByName.exists_split held
  obtain ⟨node, rest, nodes⟩ := List.exists_cons_of_ne_nil some
  have whole : (table.instanceNode fields components).children =
      (table.keyLeaves components ++ before.flatMap fun entry => table.fieldNodes entry.1 entry.2) ++
        node :: (rest ++ after.flatMap fun entry => table.fieldNodes entry.1 entry.2) := by
    rw [children_instanceNode, fieldsNodes, split, List.flatMap_append, List.flatMap_cons, nodes,
      List.cons_append, List.append_assoc]
  have given : ∀ {name text : String} {entries : List (String × String)}, (name, text) ∈ entries →
      table.memberTexts base name text ≠ [] →
        Forest.membersOf (entries.flatMap fun entry => table.fieldNodes entry.1 entry.2) base ≠ [] := by
    intro name text entries member own none
    refine own (membersOf_fieldNodes_eq_nil_iff.mp (List.filter_eq_nil_iff.mpr fun child inside => ?_))
    exact List.filter_eq_nil_iff.mp none child (List.mem_flatMap.mpr ⟨_, member, inside⟩)
  have noMember : node.label.isMemberOf base = false := by
    have none : (table.fieldNodes name text).membersOf base = [] :=
      membersOf_fieldNodes_eq_nil_iff.mpr (memberTexts_of_ne (ByName.ne_of_compare_lt behind).symm
        (ByName.ne_of_compare_lt ahead) text)
    exact (Bool.not_eq_true _).mp (List.filter_eq_nil_iff.mp none node (nodes ▸ List.mem_cons_self))
  rcases filter_infix_iff.mp together _ node _ whole noMember with none | none
  · rw [List.filter_append] at none
    refine given ((sides _ (Std.ExtTreeMap.mem_toList_iff_getElem?_eq_some.mpr plain)).1 behind)
      plainGives ?_
    exact (List.append_eq_nil_iff.mp none).2
  · rw [List.filter_append] at none
    refine given ((sides _ (Std.ExtTreeMap.mem_toList_iff_getElem?_eq_some.mpr listed)).2 ahead)
      listGives ?_
    exact (List.append_eq_nil_iff.mp none).2

/-- The fields of a row that become nodes. -/
def seenFields (table : TableSchema) (fields : Fields) : List (String × String) :=
  fields.toList.filter fun entry => !(table.fieldNodes entry.1 entry.2).isEmpty

/-- Whether a field gives a leaf-list members. -/
def givesMembers (table : TableSchema) (base : String) (entry : String × String) : Bool :=
  !(table.memberTexts base entry.1 entry.2).isEmpty

private theorem givesMembers_iff {entry : String × String} :
    table.givesMembers base entry = true ↔ table.memberTexts base entry.1 entry.2 ≠ [] := by
  simp [givesMembers]

private theorem fieldsNodes_eq (table : TableSchema) (fields : Fields) :
    table.fieldsNodes fields =
      (table.seenFields fields).flatMap fun entry => table.fieldNodes entry.1 entry.2 := by
  refine (flatMap_filter_eq fun entry _ => ?_).symm
  cases table.fieldNodes entry.1 entry.2 <;> rfl

/-- The members of a leaf-list are the nodes of the fields that give it members. -/
theorem membersOf_fieldsNodes (table : TableSchema) (fields : Fields) (base : String) :
    (table.fieldsNodes fields).membersOf base =
      ((table.seenFields fields).filter (table.givesMembers base)).flatMap fun entry =>
        table.fieldNodes entry.1 entry.2 := by
  rw [fieldsNodes_eq, Forest.membersOf, List.filter_flatMap]
  refine (flatMap_filter_eq fun entry _ => ?_).symm
  change Forest.membersOf _ base = _
  have becomes : table.Becomes entry.1 entry.2 _ := becomes_fieldNodes
  by_cases gives : table.givesMembers base entry = true
  · rw [if_pos gives]
    refine (becomes.membersOf base).resolve_left fun none => givesMembers_iff.mp gives ?_
    exact membersOf_fieldNodes_eq_nil_iff.mp none
  · rw [if_neg gives, membersOf_fieldNodes_eq_nil_iff]
    exact not_not.mp (mt givesMembers_iff.mpr gives)

/-- The fields that give a leaf-list members stand side by side unless it is scattered. -/
theorem givesMembers_infix (kept : ¬table.Scatters fields base) :
    (table.seenFields fields).filter (table.givesMembers base) <:+: table.seenFields fields := by
  refine filter_infix_iff.mpr fun before entry after split _ => ?_
  by_contra both
  rw [not_or] at both
  obtain ⟨first, firstBefore⟩ := List.exists_mem_of_ne_nil _ both.1
  obtain ⟨second, secondAfter⟩ := List.exists_mem_of_ne_nil _ both.2
  rw [List.mem_filter, givesMembers_iff] at firstBefore secondAfter
  have sorted : (table.seenFields fields).Pairwise fun first second => compare first.1 second.1 = .lt :=
    fields.pairwise_toList.filter _
  have seen : ∀ entry ∈ table.seenFields fields, fields[entry.1]? = some entry.2 ∧
      table.fieldNodes entry.1 entry.2 ≠ [] := by
    intro entry inside
    obtain ⟨stored, some⟩ := List.mem_filter.mp inside
    exact ⟨Std.ExtTreeMap.mem_toList_iff_getElem?_eq_some.mp stored, by simpa using some⟩
  rw [split] at sorted seen
  rw [List.pairwise_append, List.pairwise_cons] at sorted
  simp only [List.forall_mem_append, List.forall_mem_cons] at seen
  have behind := sorted.2.2 first firstBefore.1 entry List.mem_cons_self
  have ahead := sorted.2.1.1 second secondAfter.1
  have firstSeen := (seen.1 first firstBefore.1).1
  have secondSeen := (seen.2.2 second secondAfter.1).1
  obtain ⟨plain, listed⟩ := eq_and_eq_of_memberTexts (Std.TransCmp.lt_trans behind ahead) firstBefore.2
    secondAfter.2
  rw [plain] at firstSeen firstBefore behind
  rw [listed] at secondSeen secondAfter ahead
  exact kept ⟨⟨_, firstSeen, firstBefore.2⟩, ⟨_, secondSeen, secondAfter.2⟩, _, _, seen.2.1.1,
    behind, ahead,
    seen.2.1.2⟩

/-- The members of a leaf-list stand side by side in the list instance of a row exactly if the row does not
scatter them. -/
theorem membersOf_infix_iff (components : List String) (base : String) :
    (table.instanceNode fields components).children.membersOf base <:+:
        (table.instanceNode fields components).children ↔ ¬table.Scatters fields base := by
  refine ⟨fun together scatters => scatters.not_infix components together, fun kept => ?_⟩
  obtain ⟨before, after, split⟩ := givesMembers_infix kept
  rw [children_instanceNode, Forest.membersOf_append, membersOf_keyLeaves, List.nil_append]
  refine List.IsInfix.trans ⟨?_, ?_, ?_⟩ (List.suffix_append _ _).isInfix
  · exact before.flatMap fun entry => table.fieldNodes entry.1 entry.2
  · exact after.flatMap fun entry => table.fieldNodes entry.1 entry.2
  · rw [membersOf_fieldsNodes, ← List.flatMap_append, ← List.flatMap_append, split, fieldsNodes_eq]

end TableSchema

/-- Whether the rows of each table are kept apart and no row scatters a leaf-list. -/
structure TableRows.KeepsForm (schema : Schema) (rows : TableRows) : Prop where
  apart : ∀ table, schema.table? table.name = some table → table.KeepsApart (rows.keyed table.name)
  together : ∀ table, schema.table? table.name = some table → ∀ (rowKey : String) (fields : Fields),
    (rows.keyed table.name)[rowKey]? = some fields → ∀ base, ¬table.Scatters fields base

namespace Document

variable {modules : List ModuleDecl} {delimiter : String} {schema : Schema} {table : TableSchema}
  {rows : TableRows} {document : Document}

/-- Whether the list instances of each table have keys of their own and the members of each leaf-list stand side
by side. -/
structure IsWellFormed (schema : Schema) (document : Document) : Prop where
  keyed : ∀ table, schema.table? table.name = some table →
    ((document.trees.instancesIn table.name).map Node.key).Nodup
  adjacent : ∀ table, schema.table? table.name = some table →
    ∀ node ∈ document.trees.instancesIn table.name, ∀ name,
      node.children.membersOf name <:+: node.children

private theorem nodup_keys_iff (sound : schema.IsSound) (translated : ofRows schema rows = .ok document)
    (known : schema.table? table.name = some table) :
    ((document.trees.instancesIn table.name).map Node.key).Nodup ↔
      table.KeepsApart (rows.keyed table.name) := by
  obtain ⟨own, nodes, each, nodesOf, perm⟩ := (gathers_ofRows sound translated).2.instances table known
  have same : own = rows.keyed table.name := by
    refine Std.ExtTreeMap.ext_getElem? fun rowKey => Option.ext fun fields => ?_
    rw [each, and_iff_right trivial]
  rw [List.map_id'] at perm
  rw [(perm.map Node.key).nodup_iff, TableSchema.nodup_keys_iff nodesOf, same]

private theorem adjacent_iff (sound : schema.IsSound) (translated : ofRows schema rows = .ok document)
    (known : schema.table? table.name = some table) :
    (∀ node ∈ document.trees.instancesIn table.name, ∀ name,
        node.children.membersOf name <:+: node.children) ↔
      ∀ (rowKey : String) (fields : Fields), (rows.keyed table.name)[rowKey]? = some fields →
        ∀ base, ¬table.Scatters fields base := by
  obtain ⟨_, gathers⟩ := gathers_ofRows sound translated
  constructor
  · intro together rowKey fields row base
    obtain ⟨combinations, expanded, components, chosen⟩ := gathers.exists_components known trivial row
    rw [← TableSchema.membersOf_infix_iff components]
    exact together _ ((gathers.mem_instancesIn known).mpr
      ⟨rowKey, fields, trivial, row, combinations, expanded, components, chosen, rfl⟩) base
  · intro kept node inside name
    obtain ⟨rowKey, fields, components, row, _, rfl⟩ :=
      exists_row_of_mem_instancesIn sound translated known inside
    exact (TableSchema.membersOf_infix_iff components name).mpr (kept rowKey fields row name)

/-- **Well-formed documents.** The document of rows has list instances with keys of their own, and leaf-lists
with their members side by side, exactly if its rows are kept apart and no row scatters a leaf-list. -/
theorem isWellFormed_iff [PatternReader] (built : Schema.build modules delimiter = .ok schema)
    (translated : ofRows schema rows = .ok document) :
    document.IsWellFormed schema ↔ rows.KeepsForm schema := by
  have sound : schema.IsSound := Schema.isSound_of_build built
  constructor
  · rintro ⟨keyed, adjacent⟩
    exact ⟨fun table known => (nodup_keys_iff sound translated known).mp (keyed table known),
      fun table known => (adjacent_iff sound translated known).mp (adjacent table known)⟩
  · rintro ⟨apart, together⟩
    exact ⟨fun table known => (nodup_keys_iff sound translated known).mpr (apart table known),
      fun table known => (adjacent_iff sound translated known).mpr (together table known)⟩

/-- A table with a leaf-list. -/
def listModules (keyPattern : String) : List ModuleDecl := [{ name := "m", tables := [
  { name := "T", keyPattern, leaves := [{ name := "f", isList := true }] }] }]

/-- A row that writes the leaf-list in both spellings. -/
def listRows (rowKey : String) (others : Fields) : TableRows :=
  .single "T" rowKey ((others.insert "f" "1,2").insert "f@" "3")

/-- A row with a single-valued key that writes a leaf-list in both spellings, with no field between them, makes
a well-formed document. -/
theorem isWellFormed_listRow :
    let schema := Schema.ofModules (listModules "T|\x7bk\x7d")
    ∃ document, ofRows schema (listRows "a" ((∅ : Fields).insert "g" "x")) = .ok document ∧
      document.IsWellFormed schema := by
  intro schema
  have built := Schema.build_eq_ofModules
    (show (Schema.build (listModules "T|\x7bk\x7d") Schema.usualDelimiter).isOk by decide +kernel)
  obtain ⟨document, translated⟩ := Except.exists_of_isOk
    (show (ofRows schema (listRows "a" ((∅ : Fields).insert "g" "x"))).isOk by decide +kernel)
  have single : ∀ entry ∈ schema.tables.toList, entry.2.IsSingle ∧ entry.2.segments ≠ [] := by
    decide +kernel
  have between : ∀ entry ∈ schema.tables.toList,
      ∀ row ∈ ((listRows "a" ((∅ : Fields).insert "g" "x")).keyed entry.1).toList,
        ∀ plain ∈ row.2.toList, ∀ own ∈ row.2.toList, compare plain.1 own.1 = .lt →
          compare own.1 (listSpelling plain.1) ≠ .lt := by
    decide +kernel
  refine ⟨document, translated, (isWellFormed_iff built translated).mpr ⟨fun table known => ?_, ?_⟩⟩
  · obtain ⟨ofTable, named⟩ := single _ (Std.ExtTreeMap.mem_toList_iff_getElem?_eq_some.mpr known)
    exact ofTable.keepsApart named
  · rintro table known rowKey fields row base ⟨⟨_, plain, _⟩, _, name, _, held, behind, ahead, _⟩
    exact between _ (Std.ExtTreeMap.mem_toList_iff_getElem?_eq_some.mpr known) _
      (Std.ExtTreeMap.mem_toList_iff_getElem?_eq_some.mpr row) _
      (Std.ExtTreeMap.mem_toList_iff_getElem?_eq_some.mpr plain) _
        (Std.ExtTreeMap.mem_toList_iff_getElem?_eq_some.mpr held) behind ahead

/-- Neither a key that lists a value twice nor a row with a field between the two spellings of a leaf-list makes
a well-formed document. -/
theorem not_isWellFormed_listRow :
    let schema := Schema.ofModules (listModules "T|(\x7bk\x7d,)*")
    (∃ document, ofRows schema (.single "T" "a,a" ∅) = .ok document ∧ ¬document.IsWellFormed schema) ∧
      ∃ document, ofRows schema (listRows "a" ((∅ : Fields).insert "f0" "x")) = .ok document ∧
        ¬document.IsWellFormed schema := by
  intro schema
  have known : (schema.table? "T").any fun table => table.name = "T" := by decide +kernel
  obtain ⟨table, known, named⟩ := (Option.any_eq_true _ _).mp known
  rw [← of_decide_eq_true named] at known
  constructor
  · have shared : (ofRows schema (.single "T" "a,a" ∅)).toOption.any fun document =>
        ((document.trees.instancesIn "T").map Node.key) = [some "a", some "a"] := by
      decide +kernel
    obtain ⟨document, made, keys⟩ := (Option.any_eq_true _ _).mp shared
    refine ⟨document, Except.toOption_eq_some_iff.mp made, fun formed => ?_⟩
    have distinct := formed.keyed table known
    rw [of_decide_eq_true named, of_decide_eq_true keys] at distinct
    exact absurd distinct (by decide)
  · have scattered : (ofRows schema (listRows "a" ((∅ : Fields).insert "f0" "x"))).toOption.any fun
      document =>
        ∃ node ∈ document.trees.instancesIn "T", ¬node.children.membersOf "f" <:+: node.children := by
      decide +kernel
    obtain ⟨document, made, apart⟩ := (Option.any_eq_true _ _).mp scattered
    obtain ⟨node, inside, apart⟩ := of_decide_eq_true apart
    exact ⟨document, Except.toOption_eq_some_iff.mp made, fun formed =>
      apart (formed.adjacent table known node (of_decide_eq_true named ▸ inside) "f")⟩

end Document

end ConfigVetting
