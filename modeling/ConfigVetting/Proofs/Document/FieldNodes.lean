import ConfigVetting.Document.Rows
import ConfigVetting.Proofs.Staging.Spelling

/-! # What a field becomes

A field of a row becomes no node, one entry, the members of a leaf-list or one leaf
(`ConfigVetting.TableSchema.becomes_fieldNodes`). What is said of the nodes of a field elsewhere is said of
these four cases, each with what it takes.
-/

namespace ConfigVetting.TableSchema

variable {table : TableSchema} {name text : String} {child : Tree}

/-- The nodes that a field may become: none, an entry, the members of a leaf-list or a leaf. -/
inductive Becomes (table : TableSchema) (name text : String) : Forest Unit → Prop
  | nothing
      (absent : name = placeholder ∨ table.mapLeaves = none ∧ table.isKey (baseName name) = true) :
      Becomes table name text []
  | entry (real : name ≠ placeholder) {nameLeaf valueLeaf : String}
      (mapped : table.mapLeaves = some (nameLeaf, valueLeaf)) :
      Becomes table name text [.tree (.listInstance table.name name)
        [.tree (.leaf nameLeaf name) [], .tree (.leaf valueLeaf (referenced text)) []]]
  | members (real : name ≠ placeholder) (noEntries : table.mapLeaves = none)
      (notKey : table.isKey (baseName name) = false)
      (listed : (Text.beforeLast listMark name).isSome = true ∨ table.isLeafList name = true) :
      Becomes table name text
        ((listMembers text).map fun member => .tree (.member (baseName name) (referenced member)) [])
  | leaf (real : name ≠ placeholder) (noEntries : table.mapLeaves = none)
      (notKey : table.isKey name = false) (unmarked : Text.beforeLast listMark name = none)
      (single : table.isLeafList name = false) :
      Becomes table name text [.tree (.leaf name (referenced text)) []]

/-- The nodes of a field are one of those that it may become. -/
theorem becomes_fieldNodes : table.Becomes name text (table.fieldNodes name text) := by
  unfold fieldNodes
  by_cases standIn : name = placeholder
  · rw [if_pos standIn]
    exact .nothing (Or.inl standIn)
  · rw [if_neg standIn]
    cases mapped : table.mapLeaves with
    | some leaves => exact .entry standIn mapped
    | none =>
        change table.Becomes name text (if table.isKey (baseName name) = true then [] else _)
        by_cases isKey : table.isKey (baseName name) = true
        · rw [if_pos isKey]
          exact .nothing (Or.inr ⟨mapped, isKey⟩)
        · rw [if_neg isKey]
          rw [Bool.not_eq_true] at isKey
          by_cases listed : ((Text.beforeLast listMark name).isSome || table.isLeafList name) = true
          · rw [if_pos listed]
            exact .members standIn mapped isKey (by simpa using listed)
          · rw [if_neg listed]
            rw [Bool.or_eq_true, not_or, Bool.not_eq_true, Bool.not_eq_true,
              Option.isSome_eq_false_iff, Option.isNone_iff_eq_none] at listed
            rw [baseName_of_unmarked listed.1] at isKey
            rw [listed.1]
            exact .leaf standIn mapped isKey listed.1 listed.2

/-- In a table without entries, the nodes of a field have its plain name and are no entries. -/
theorem Becomes.name_eq {nodes : Forest Unit} (becomes : table.Becomes name text nodes)
    (noEntries : table.mapLeaves = none) (inside : child ∈ nodes) :
    child.kind ≠ .list ∧ child.name = baseName name := by
  cases becomes with
  | nothing => cases inside
  | entry _ mapped => cases noEntries.symm.trans mapped
  | members =>
      obtain ⟨_, _, rfl⟩ := List.mem_map.mp inside
      exact ⟨nofun, rfl⟩
  | leaf _ _ _ unmarked =>
      cases List.mem_singleton.mp inside
      exact ⟨nofun, (baseName_of_unmarked unmarked).symm⟩

/-- A field becomes entries, leaves and members of leaf-lists. -/
theorem Becomes.kind_eq {nodes : Forest Unit} (becomes : table.Becomes name text nodes)
    (inside : child ∈ nodes) : child.kind = .list ∨ child.kind = .leaf ∨ child.kind = .leafList := by
  cases becomes with
  | nothing => cases inside
  | entry =>
      cases List.mem_singleton.mp inside
      exact Or.inl rfl
  | members =>
      obtain ⟨_, _, rfl⟩ := List.mem_map.mp inside
      exact Or.inr (Or.inr rfl)
  | leaf =>
      cases List.mem_singleton.mp inside
      exact Or.inr (Or.inl rfl)

/-- In a table of entries, no field becomes leaves or members. -/
theorem Becomes.noEntries {nodes : Forest Unit} (becomes : table.Becomes name text nodes)
    (inside : child ∈ nodes) (isLeaf : child.kind = .leaf ∨ child.kind = .leafList) :
    table.mapLeaves = none := by
  cases becomes with
  | nothing => cases inside
  | entry =>
      cases List.mem_singleton.mp inside
      rcases isLeaf with leaf | leafList
      · cases leaf
      · cases leafList
  | members _ noEntries => exact noEntries
  | leaf _ noEntries => exact noEntries

/-- A leaf that a field becomes has its name, which is no component of the key. -/
theorem Becomes.of_leaf {nodes : Forest Unit} (becomes : table.Becomes name text nodes)
    (inside : child ∈ nodes) (isLeaf : child.kind = .leaf) :
    child.name = name ∧ table.isKey name = false := by
  cases becomes with
  | nothing => cases inside
  | entry =>
      cases List.mem_singleton.mp inside
      cases isLeaf
  | members =>
      obtain ⟨_, _, rfl⟩ := List.mem_map.mp inside
      cases isLeaf
  | leaf _ _ notKey =>
      cases List.mem_singleton.mp inside
      exact ⟨rfl, notKey⟩

end ConfigVetting.TableSchema
