import ConfigVetting.Pattern.Engine
import ConfigVetting.Proofs.Maps
import ConfigVetting.Proofs.Steps
import ConfigVetting.Proofs.Text.Parts
import ConfigVetting.Schema.Index

/-! # Key patterns

A component of a key pattern is read from exactly the text that writes it
(`ConfigVetting.KeySegment.parse?_eq_some_iff`), and a pattern as exactly the components whose texts it has
between delimiters behind the name of the table (`ConfigVetting.KeyPattern.parse_eq_ok_iff`). The key pattern
of a declaration is looked at first, and no later fault passes for one of it. So a table is refused for its
key pattern exactly if there are no such components, and one that is accepted has those that write its
pattern (`ConfigVetting.Schema.build_refused_iff`).
-/

namespace ConfigVetting

namespace KeySegment

private theorem between_eq_some_iff {start stop text inner : List Char} :
    between start stop text = some inner ↔ text = start ++ (inner ++ stop) := by
  rw [between, Option.bind_eq_some_iff]
  constructor
  · rintro ⟨rest, started, ended⟩
    obtain ⟨backwards, stopped, rfl⟩ := Option.map_eq_some_iff.mp ended
    rw [Text.afterStartChars_eq_some_iff] at started stopped
    have whole := congrArg List.reverse stopped
    rw [List.reverse_reverse, List.reverse_append, List.reverse_reverse] at whole
    rw [started, whole]
  · rintro rfl
    refine ⟨inner ++ stop, Text.afterStartChars_eq_some_iff.mpr rfl, ?_⟩
    refine Option.map_eq_some_iff.mpr ⟨inner.reverse, ?_, List.reverse_reverse inner⟩
    exact Text.afterStartChars_eq_some_iff.mpr List.reverse_append

/-- A name is read between a beginning and an end exactly if it stands there. -/
theorem filter_between_eq_some_iff {start stop text name : List Char} :
    (between start stop text).filter isName = some name ↔
      text = start ++ (name ++ stop) ∧ isName name := by
  rw [Option.filter_eq_some_iff, between_eq_some_iff]

private theorem toList_render (segment : KeySegment) : segment.render.toList =
    if segment.repeating then ['(', '\x7b'] ++ (segment.name.toList ++ ['\x7d', ',', ')', '*'])
    else ['\x7b'] ++ (segment.name.toList ++ ['\x7d']) := by
  obtain ⟨name, repeating⟩ := segment
  cases repeating <;> simp [render, String.toList_append]

/-- A component that writes its name as such is read back. -/
theorem parse?_render {segment : KeySegment} (named : isName segment.name.toList) :
    parse? segment.render = some segment := by
  obtain ⟨name, repeating⟩ := segment
  unfold parse?
  cases repeating with
  | false =>
      have inside := filter_between_eq_some_iff.mpr ⟨toList_render ⟨name, false⟩, named⟩
      simp only [inside, String.ofList_toList]
  | true =>
      have inside := filter_between_eq_some_iff.mpr ⟨toList_render ⟨name, true⟩, named⟩
      cases outside : (between ['\x7b'] ['\x7d'] (render ⟨name, true⟩).toList).filter isName with
      | none => simp only [inside, String.ofList_toList]
      | some other =>
          have opened := (filter_between_eq_some_iff.mp outside).1
          rw [toList_render] at opened
          cases opened

/-- A component is read from exactly the text that writes it. -/
theorem parse?_eq_some_iff {part : String} {segment : KeySegment} :
    parse? part = some segment ↔ part = segment.render ∧ isName segment.name.toList := by
  constructor
  · intro read
    unfold parse? at read
    split at read
    · next name found =>
      cases read
      obtain ⟨written, named⟩ := filter_between_eq_some_iff.mp found
      rw [← String.toList_inj, toList_render, String.toList_ofList]
      exact ⟨written, named⟩
    · split at read
      · next name found =>
        cases read
        obtain ⟨written, named⟩ := filter_between_eq_some_iff.mp found
        rw [← String.toList_inj, toList_render, String.toList_ofList]
        exact ⟨written, named⟩
      · cases read
  · rintro ⟨rfl, named⟩
    exact parse?_render named

/-- Parts are read one by one as exactly the components that they write. -/
theorem forall₂_parse?_iff {parts : List String} {segments : List KeySegment} :
    List.Forall₂ (fun part segment => parse? part = some segment) parts segments ↔
      parts = segments.map render ∧ ∀ segment ∈ segments, isName segment.name.toList := by
  induction segments generalizing parts with
  | nil => simp
  | cons segment segments ih =>
      rw [List.forall₂_cons_right_iff, List.map_cons, List.forall_mem_cons]
      constructor
      · rintro ⟨part, others, read, rest, rfl⟩
        obtain ⟨rfl, named⟩ := parse?_eq_some_iff.mp read
        obtain ⟨rfl, otherNamed⟩ := ih.mp rest
        exact ⟨rfl, named, otherNamed⟩
      · rintro ⟨rfl, named, otherNamed⟩
        exact ⟨_, _, parse?_render named, ih.mpr ⟨rfl, otherNamed⟩, rfl⟩

end KeySegment

namespace KeyPattern

private theorem nodup_concat_iff {earlier : List KeySegment} {segment : KeySegment}
    (apart : (earlier.map KeySegment.name).Nodup) :
    ((earlier ++ [segment]).map KeySegment.name).Nodup ↔
      ¬ (earlier.any fun other => other.name = segment.name) := by
  rw [List.map_append, List.map_singleton, List.nodup_append]
  simp [apart]

/-- The parts of a pattern are read as the components that they write one by one, which have to be some and
to have other names than each other and those read before. -/
theorem segments_eq_ok_iff {earlier found : List KeySegment} {parts : List String}
    (apart : (earlier.map KeySegment.name).Nodup) :
    segments earlier parts = .ok found ↔ found ≠ [] ∧ (found.map KeySegment.name).Nodup ∧
      ∃ later, found = earlier ++ later ∧
        List.Forall₂ (fun part segment => KeySegment.parse? part = some segment) parts later := by
  induction parts generalizing earlier with
  | nil =>
      simp only [List.forall₂_nil_left_iff, exists_eq_right, List.append_nil]
      unfold segments
      by_cases empty : earlier = []
      · subst empty
        simp only [List.isEmpty_nil, ↓reduceIte, reduceCtorEq, false_iff]
        rintro ⟨filled, _, rfl⟩
        exact filled rfl
      · rw [if_neg (mt List.isEmpty_iff.mp empty), Except.ok.injEq]
        constructor
        · rintro rfl
          exact ⟨empty, apart, rfl⟩
        · rintro ⟨_, _, rfl⟩
          rfl
  | cons part parts ih =>
      unfold segments
      cases read : KeySegment.parse? part with
      | none => simp [List.forall₂_cons_left_iff, read]
      | some segment =>
          by_cases repeated : earlier.any fun other => other.name = segment.name
          · simp only [if_pos repeated, reduceCtorEq, false_iff]
            rintro ⟨_, distinct, later, rfl, related⟩
            obtain ⟨other, others, same, _, rfl⟩ := List.forall₂_cons_left_iff.mp related
            cases read.symm.trans same
            rw [List.append_cons, List.map_append] at distinct
            exact (nodup_concat_iff apart).mp (List.nodup_append.mp distinct).1 repeated
          · simp only [if_neg repeated]
            rw [ih ((nodup_concat_iff apart).mpr repeated)]
            -- What is read next moves from the parts to the components before.
            have moved : (∃ later, found = (earlier ++ [segment]) ++ later ∧
                  List.Forall₂ (fun part segment => KeySegment.parse? part = some segment) parts later) ↔
                ∃ later, found = earlier ++ later ∧
                  List.Forall₂ (fun part segment => KeySegment.parse? part = some segment)
                    (part :: parts) later := by
              simp [List.forall₂_cons_left_iff, read]
            rw [moved]

/-- Whether a pattern, split at a delimiter, is the name of a table and the texts of some components, of which
no two have the same name. -/
structure IsWritten (table delimiter pattern : String) (segments : List KeySegment) : Prop where
  parts : Text.split delimiter pattern = table :: segments.map KeySegment.render
  filled : segments ≠ []
  named : ∀ segment ∈ segments, isName segment.name.toList
  apart : (segments.map KeySegment.name).Nodup

/-- A pattern is read as exactly the components that it is written with. -/
theorem parse_eq_ok_iff {table pattern delimiter : String} {segments : List KeySegment} :
    parse table pattern delimiter = .ok segments ↔
      delimiter ≠ "" ∧ IsWritten table delimiter pattern segments := by
  unfold parse
  by_cases empty : delimiter = ""
  · simp [empty]
  rw [if_neg empty]
  cases split : Text.split delimiter pattern with
  | nil =>
      simp only [reduceCtorEq, false_iff]
      rintro ⟨_, written⟩
      cases split.symm.trans written.parts
  | cons name parts =>
      by_cases own : name = table
      · simp only [if_pos own]
        have none : (([] : List KeySegment).map KeySegment.name).Nodup := List.nodup_nil
        rw [segments_eq_ok_iff none]
        simp only [List.nil_append, exists_eq_left', KeySegment.forall₂_parse?_iff]
        constructor
        · rintro ⟨filled, apart, rfl, named⟩
          exact ⟨empty, split.trans (by rw [own]), filled, named, apart⟩
        · rintro ⟨_, written⟩
          have same := split.symm.trans written.parts
          exact ⟨written.filled, written.apart, (List.cons.inj same).2, written.named⟩
      · simp only [if_neg own, reduceCtorEq, false_iff]
        rintro ⟨_, written⟩
        exact own (List.cons.inj (split.symm.trans written.parts)).1

/-- A pattern is refused exactly if there is no delimiter or nothing that it is written with. -/
theorem exists_fault_iff {table pattern delimiter : String} :
    (∃ fault, parse table pattern delimiter = .error fault) ↔
      delimiter = "" ∨ ¬ ∃ segments, IsWritten table delimiter pattern segments := by
  cases read : parse table pattern delimiter with
  | error fault =>
      have unread : ∀ segments, delimiter ≠ "" → ¬ IsWritten table delimiter pattern segments := by
        intro segments delimited written
        cases read.symm.trans (parse_eq_ok_iff.mpr ⟨delimited, written⟩)
      refine iff_of_true ⟨fault, rfl⟩ (or_iff_not_imp_left.mpr fun delimited => ?_)
      rintro ⟨segments, written⟩
      exact unread segments delimited written
  | ok segments =>
      obtain ⟨delimited, written⟩ := parse_eq_ok_iff.mp read
      refine iff_of_false nofun (not_or.mpr ⟨delimited, not_not.mpr ⟨segments, written⟩⟩)

/-- The components that a pattern is written with give it back. -/
theorem IsWritten.render_eq {table delimiter pattern : String} {segments : List KeySegment}
    (written : IsWritten table delimiter pattern segments) :
    render table delimiter segments = pattern := by
  rw [render, ← written.parts]
  exact Text.joinWith_splitChars delimiter pattern pattern.toList.length

end KeyPattern

/-- Whether a fault is not one of a key pattern. -/
def SchemaFault.Cause.SparesPattern (cause : Cause) : Prop :=
  cause.code ≠ "CVL_SCHEMA_INVALID_KEY_PATTERN"

open SchemaFault.Cause (SparesPattern)

namespace LeafSchema

private theorem sparesPattern_invalidLeaf (table reason : String) :
    SparesPattern (.invalidLeaf table reason) := by
  simp [SparesPattern, SchemaFault.Cause.code]

/-- What is wrong with a leaf is not the key pattern. -/
theorem failsOnly_ofDecl [PatternReader] (table : String) (decl : LeafDecl) :
    Except.FailsOnly SparesPattern (ofDecl table decl) := by
  unfold ofDecl
  by_cases marked : (Text.beforeLast listMark decl.name).isSome
  · rw [if_pos marked]
    exact .error (sparesPattern_invalidLeaf _ _)
  · rw [if_neg marked]
    refine .bind (.mapM fun path _ => ?_) fun targets _ => ?_
    · split
      · exact .ok _
      · exact .error (by simp [SparesPattern, SchemaFault.Cause.code])
    · split
      · exact .ok _
      · split
        · exact .ok _
        · exact .error (sparesPattern_invalidLeaf _ _)

private theorem failsOnly_byName [PatternReader] (table : String) (decls : List LeafDecl) :
    Except.FailsOnly SparesPattern (byName table decls) := by
  refine .foldlM (fun leaves decl _ => .bind (failsOnly_ofDecl table decl) fun leaf _ => ?_) ∅
  by_cases twice : decl.name ∈ leaves
  · rw [if_pos twice]
    exact .error (sparesPattern_invalidLeaf _ _)
  · rw [if_neg twice]
    exact .ok _

end LeafSchema

namespace TableSchema

private theorem failsOnly_mapLeavesOf (table : String) (names : Option (List String)) :
    Except.FailsOnly SparesPattern (mapLeavesOf table names) := by
  unfold mapLeavesOf
  split
  · exact .ok _
  · exact .ok _
  · exact .error (LeafSchema.sparesPattern_invalidLeaf _ _)

variable {moduleName delimiter : String} {decl : TableDecl}

/-- A declaration is refused for its key pattern exactly if the pattern is. -/
theorem ofDecl_refused_iff [PatternReader] :
    (∃ cause, ofDecl moduleName delimiter decl = .error cause ∧ ¬ SparesPattern cause) ↔
      ∃ fault, KeyPattern.parse decl.name decl.keyPattern (decl.keyDelimiter.getD delimiter) =
        .error fault := by
  constructor
  · rintro ⟨cause, refused, harms⟩
    rcases Except.bind_eq_error_iff.mp refused with early | ⟨segments, _, later⟩
    · obtain ⟨fault, unread, _⟩ := Except.mapError_eq_error_iff.mp early
      exact ⟨fault, unread⟩
    · rcases Except.bind_eq_error_iff.mp later with failed | ⟨mapLeaves, _, later⟩
      · exact absurd (failsOnly_mapLeavesOf _ _ cause failed) harms
      · rcases Except.bind_eq_error_iff.mp later with failed | ⟨leaves, _, made⟩
        · exact absurd (LeafSchema.failsOnly_byName _ _ cause failed) harms
        · cases made
  · rintro ⟨fault, unread⟩
    refine ⟨.invalidKeyPattern decl.name fault.message, Except.bind_eq_error_iff.mpr (.inl ?_), ?_⟩
    · exact Except.mapError_eq_error_iff.mpr ⟨fault, unread, rfl⟩
    · simp [SparesPattern, SchemaFault.Cause.code]

/-- A table that was read from a declaration has the components that its pattern is written with. -/
theorem isWritten_of_ofDecl [PatternReader] {table : TableSchema}
    (read : ofDecl moduleName delimiter decl = .ok table) :
    table.name = decl.name ∧ table.keyPattern = decl.keyPattern ∧
      table.keyDelimiter = decl.keyDelimiter.getD delimiter ∧ table.keyDelimiter ≠ "" ∧
        KeyPattern.IsWritten table.name table.keyDelimiter table.keyPattern table.segments := by
  obtain ⟨segments, parsed, rest⟩ := Except.bind_eq_ok_iff.mp read
  obtain ⟨mapLeaves, _, rest⟩ := Except.bind_eq_ok_iff.mp rest
  obtain ⟨leaves, _, rest⟩ := Except.bind_eq_ok_iff.mp rest
  cases rest
  exact ⟨rfl, rfl, rfl, KeyPattern.parse_eq_ok_iff.mp (Except.mapError_eq_ok_iff.mp parsed)⟩

end TableSchema

namespace Schema

variable {moduleName delimiter : String} {decl : TableDecl}

/-- The one table of a module is read into an empty schema. -/
theorem readTables_single [PatternReader] : readTables delimiter [{ name := moduleName, tables := [decl] }] =
    (TableSchema.ofDecl moduleName delimiter decl).map fun table =>
      (∅ : ByName TableSchema).insert table.name table := by
  unfold readTables
  rw [List.foldlM_cons, List.foldlM_cons]
  cases TableSchema.ofDecl moduleName delimiter decl with
  | error cause => rfl
  | ok table =>
      have fresh : table.name ∉ (∅ : ByName TableSchema) := Std.ExtTreeMap.not_mem_empty
      simp only [bind, Except.bind, if_neg fresh]
      rfl

/-- The schema of one table is refused for the fault that the table is refused for, if there is one. Else it
has the table that was read, with the tables that it depends on. -/
theorem build_single_cases [PatternReader] (moduleName delimiter : String) (decl : TableDecl) :
    (∃ cause, TableSchema.ofDecl moduleName delimiter decl = .error cause ∧
      build [{ name := moduleName, tables := [decl] }] delimiter = .error (.ofCause cause)) ∨
    ∃ table schema, TableSchema.ofDecl moduleName delimiter decl = .ok table ∧
      build [{ name := moduleName, tables := [decl] }] delimiter = .ok schema ∧
      ∃ names, schema.table? table.name = some { table with dependentTables := names } := by
  unfold build
  rw [readTables_single]
  cases TableSchema.ofDecl moduleName delimiter decl with
  | error cause => exact .inl ⟨cause, rfl, rfl⟩
  | ok table =>
      refine .inr ⟨table, _, rfl, rfl, ?_⟩
      simp only [table?, Std.ExtTreeMap.getElem?_map, Std.ExtTreeMap.getElem?_insert_self,
        Option.map_some]
      exact ⟨_, rfl⟩

/-- **Key patterns are read as they are written.** A schema of one table is refused for its key pattern
exactly if there is no delimiter or if the pattern, split at it, is not the name of the table and the texts of
some components with different names. A table that is accepted has the components that its pattern is written
with, and they give it back. -/
theorem build_refused_iff [PatternReader] (moduleName delimiter : String) (decl : TableDecl) :
    ((∃ fault, build [{ name := moduleName, tables := [decl] }] delimiter = .error fault ∧
        fault.code = "CVL_SCHEMA_INVALID_KEY_PATTERN") ↔
      decl.keyDelimiter.getD delimiter = "" ∨ ¬ ∃ segments,
        KeyPattern.IsWritten decl.name (decl.keyDelimiter.getD delimiter) decl.keyPattern segments) ∧
    ∀ schema, build [{ name := moduleName, tables := [decl] }] delimiter = .ok schema →
      ∃ table, schema.table? decl.name = some table ∧
        KeyPattern.IsWritten decl.name (decl.keyDelimiter.getD delimiter) decl.keyPattern
          table.segments ∧
        KeyPattern.render table.name table.keyDelimiter table.segments = decl.keyPattern := by
  rw [← KeyPattern.exists_fault_iff, ← @TableSchema.ofDecl_refused_iff moduleName]
  rcases build_single_cases moduleName delimiter decl with
    ⟨cause, refused, failed⟩ | ⟨table, schema, read, built, names, known⟩
  · rw [refused, failed]
    simp only [Except.error.injEq, exists_eq_left', SchemaFault.Cause.SparesPattern, not_not]
    exact ⟨Iff.rfl, nofun⟩
  · rw [read, built]
    refine ⟨by simp, ?_⟩
    rintro _ ⟨⟩
    obtain ⟨named, patterned, delimited, _, written⟩ := TableSchema.isWritten_of_ofDecl read
    rw [named] at known
    refine ⟨_, known, ?_, ?_⟩
    · rw [← named, ← patterned, ← delimited]
      exact written
    · rw [← patterned]
      exact named ▸ written.render_eq

/-- A table whose delimiter is made of characters that also write its components. -/
def bracketTable : TableDecl :=
  { name := "T", keyPattern := "T),\x7ba\x7d),(\x7bb\x7d,)*", keyDelimiter := some ")," }

/-- The table is accepted with two components, which give its pattern back. -/
theorem render_bracketTable : ∃ schema table,
    build [{ name := "m", tables := [bracketTable] }] usualDelimiter = .ok schema ∧
      schema.table? "T" = some table ∧ table.segments.length = 2 ∧
      KeyPattern.render table.name table.keyDelimiter table.segments =
        "T),\x7ba\x7d),(\x7bb\x7d,)*" := by
  have accepted : (build [{ name := "m", tables := [bracketTable] }] usualDelimiter).isOk := by
    decide +kernel
  obtain ⟨schema, built⟩ := Except.exists_of_isOk accepted
  obtain ⟨table, known, written, rendered⟩ :=
    (build_refused_iff "m" usualDelimiter bracketTable).2 schema built
  have split : (Text.split ")," "T),\x7ba\x7d),(\x7bb\x7d,)*").length = 3 := by decide +kernel
  have count := congrArg List.length written.parts
  rw [List.length_cons, List.length_map] at count
  exact ⟨schema, table, built, known, Nat.succ.inj (count.symm.trans split), rendered⟩

end Schema

end ConfigVetting
