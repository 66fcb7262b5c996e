import ConfigVetting.Proofs.Document.Counting
import ConfigVetting.Proofs.Document.Layering
import ConfigVetting.Proofs.Document.SingleKeys

/-! # List instances of different keys

A row stands for one list instance for each choice of the values in its key. The keys of the list instances
of rows are all different exactly if no component of a row key names a value twice, the values that were
chosen can be told from the joined key, and no two rows share a list instance
(`ConfigVetting.TableSchema.nodup_keys_iff`). All of this holds where every component has a single value
(`ConfigVetting.TableSchema.IsSingle.keepsApart`).
-/

namespace ConfigVetting

/-- All choices are different exactly if none of the lists has a value twice. -/
theorem nodup_choices_iff {α : Type} {lists : List (List α)} (filled : [] ∉ lists) :
    (choices lists).Nodup ↔ ∀ values ∈ lists, values.Nodup := by
  induction lists with
  | nil => simp [choices]
  | cons values lists ih =>
      obtain ⟨filledFirst, filledRest⟩ := not_or.mp (mt List.mem_cons.mpr filled)
      obtain ⟨one, listed⟩ := List.exists_mem_of_ne_nil values (Ne.symm filledFirst)
      obtain ⟨others, chosen⟩ := exists_mem_choices filledRest
      have tails : ∀ value : α, ((choices lists).map fun others => value :: others).Nodup ↔
          (choices lists).Nodup := fun value =>
        List.nodup_map_iff fun _ _ same => (List.cons.inj same).2
      have heads : values.Pairwise (Function.onFun List.Disjoint fun value =>
          (choices lists).map fun others => value :: others) ↔ values.Nodup := by
        refine List.Pairwise.iff fun {first second} => ⟨fun apart same => ?_, fun differs choice => ?_⟩
        · have own := List.mem_map_of_mem (f := fun others => first :: others) chosen
          exact apart own (same ▸ own)
        · intro left right
          obtain ⟨_, _, rfl⟩ := List.mem_map.mp left
          obtain ⟨_, _, same⟩ := List.mem_map.mp right
          exact differs (List.cons.inj same).1.symm
      rw [choices, List.nodup_flatMap, heads, List.forall_mem_cons, ← ih filledRest]
      simp only [tails]
      exact and_comm.trans (and_congr_right fun _ => ⟨fun all => all one listed, fun own _ _ => own⟩)

namespace TableSchema

variable {table : TableSchema} {rows : KeyedRows} {nodes : Forest Unit}

/-- Whether the list instances of rows have keys of their own. -/
structure KeepsApart (table : TableSchema) (rows : KeyedRows) : Prop where
  /-- No component of a row key names a value twice. -/
  values : ∀ rowKey ∈ rows, ∀ components, table.splitKey rowKey = some components →
    ∀ values ∈ table.componentValues components, values.Nodup
  /-- Different values that are chosen for a row are joined to different keys. -/
  joined : ∀ rowKey ∈ rows, ∀ combinations, table.expandKey rowKey = .ok combinations →
    ∀ first ∈ combinations, ∀ second ∈ combinations,
      table.instanceKey first = table.instanceKey second → first = second
  /-- No two rows have list instances of one key. -/
  shared : ∀ first ∈ rows, ∀ second ∈ rows, ∀ key ∈ table.instanceKeys first,
    key ∈ table.instanceKeys second → first = second

/-- The keys of the list instances of a row are all different exactly if no component of its key names a value
twice and different choices are joined to different keys. -/
theorem nodup_instanceKeys_iff {rowKey : String} {combinations : List (List String)}
    (expanded : table.expandKey rowKey = .ok combinations) {components : List String}
    (split : table.splitKey rowKey = some components) :
    (table.instanceKeys rowKey).Nodup ↔
      (∀ values ∈ table.componentValues components, values.Nodup) ∧
        ∀ first ∈ combinations, ∀ second ∈ combinations,
          table.instanceKey first = table.instanceKey second → first = second := by
  obtain ⟨again, splitAgain, filled, rfl⟩ := expandKey_eq_ok_iff.mp expanded
  cases split.symm.trans splitAgain
  rw [instanceKeys_eq expanded, ← nodup_choices_iff filled]
  constructor
  · intro distinct
    have chosen := distinct.of_map
    exact ⟨chosen, fun first member second also => (List.nodup_map_iff_inj_on chosen).mp distinct
      first member second also⟩
  · rintro ⟨chosen, injective⟩
    exact (List.nodup_map_iff_inj_on chosen).mpr fun first member second also =>
      injective first member second also

/-- The keys of the list instances of rows are all different exactly if the rows are kept apart. -/
theorem nodup_keys_iff (translated : table.rowsNodes rows = .ok nodes) :
    (nodes.map Node.key).Nodup ↔ table.KeepsApart rows := by
  have expands : ∀ rowKey ∈ rows, ∃ components combinations, table.splitKey rowKey = some components ∧
      table.expandKey rowKey = .ok combinations := by
    intro rowKey member
    obtain ⟨fields, row⟩ := Option.isSome_iff_exists.mp (Std.ExtTreeMap.mem_iff_isSome_getElem?.mp member)
    obtain ⟨combinations, expanded, _⟩ := expands_of_rowsNodes translated row
    obtain ⟨components, split, _⟩ := expandKey_eq_ok_iff.mp expanded
    exact ⟨components, combinations, split, expanded⟩
  have listed : ∀ rowKey, rowKey ∈ rows.keys ↔ rowKey ∈ rows := fun _ => Std.ExtTreeMap.mem_keys
  have disjoint : rows.keys.Pairwise (Function.onFun List.Disjoint table.instanceKeys) ↔
      ∀ first ∈ rows, ∀ second ∈ rows, ∀ key ∈ table.instanceKeys first,
        key ∈ table.instanceKeys second → first = second := by
    have symmetric : Std.Symm (Function.onFun List.Disjoint table.instanceKeys) :=
      ⟨fun _ _ apart _ own also => apart also own⟩
    constructor
    · intro apart first member second also key own shares
      by_contra differs
      exact apart.forall ((listed first).mpr member) ((listed second).mpr also) differs own shares
    · intro shared
      exact rows.nodup_keys.imp_of_mem fun member also differs key own shares =>
        differs (shared _ ((listed _).mp member) _ ((listed _).mp also) key own shares)
  rw [map_key_of_rowsNodes translated, List.nodup_map_iff (Option.some_injective _), List.nodup_flatMap,
    disjoint]
  simp only [listed]
  constructor
  · rintro ⟨each, shared⟩
    refine ⟨fun rowKey member components split => ?_, fun rowKey member combinations expanded => ?_, shared⟩
    · obtain ⟨_, combinations, _, expanded⟩ := expands rowKey member
      exact ((nodup_instanceKeys_iff expanded split).mp (each rowKey member)).1
    · obtain ⟨components, _, split, _⟩ := expands rowKey member
      exact ((nodup_instanceKeys_iff expanded split).mp (each rowKey member)).2
  · rintro ⟨values, joined, shared⟩
    refine ⟨fun rowKey member => ?_, shared⟩
    obtain ⟨components, combinations, split, expanded⟩ := expands rowKey member
    exact (nodup_instanceKeys_iff expanded split).mpr
      ⟨values rowKey member components split, joined rowKey member combinations expanded⟩

/-- Rows whose keys have a single value in each component are kept apart. -/
theorem IsSingle.keepsApart (single : table.IsSingle) (named : table.segments ≠ []) :
    table.KeepsApart rows where
  values rowKey _ components split values inside := by
    rw [single.componentValues_eq (splitKey_sound named split).1] at inside
    obtain ⟨component, _, rfl⟩ := List.mem_map.mp inside
    exact List.nodup_singleton component
  joined rowKey _ combinations expanded first member second also _ := by
    obtain ⟨components, split, _⟩ := expandKey_eq_ok_iff.mp expanded
    cases expanded.symm.trans (single.expandKey_eq named split)
    rw [List.mem_singleton.mp member, List.mem_singleton.mp also]
  shared first _ second _ key inside also :=
    (single.instanceKeys_of_mem named inside).1.symm.trans (single.instanceKeys_of_mem named also).1

end TableSchema

end ConfigVetting
