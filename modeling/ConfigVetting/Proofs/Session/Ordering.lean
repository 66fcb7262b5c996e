import ConfigVetting.Dependency
import ConfigVetting.Proofs.Maps
import ConfigVetting.Proofs.Schema.Tables

/-! # The order in which tables are loaded

What is wanted of the tables is loaded in an order that starts from what is wanted at first and follows
the must rules of each table that is wanted whole. A table is loaded whole exactly if the must rules bring
it in (`ConfigVetting.Dependency.whole_mem_loadsOf_iff`), and no table is loaded more often than twice, by
some of its rows first and whole later (`ConfigVetting.Dependency.loadsOf_cases`). How the loop goes on is
read off once, as the cases of `ConfigVetting.Dependency.Loads`.
-/

namespace ConfigVetting

namespace Want

/-- Whether a row is among what is wanted of its table. -/
def covers : Want → String → Bool
  | whole, _ => true
  | rows keys, rowKey => rowKey ∈ keys

private theorem covers_join (first second : Want) (rowKey : String) :
    (first.join second).covers rowKey = (first.covers rowKey || second.covers rowKey) := by
  cases first <;> cases second <;> simp [join, covers]

private theorem join_eq_whole_iff {first second : Want} :
    first.join second = .whole ↔ first = .whole ∨ second = .whole := by
  cases first <;> cases second <;> simp [join]

end Want

namespace Wants

variable {wants : Wants} {name other rowKey : String}

private theorem getElem?_add (wants : Wants) (table : String) (want : Want) (name : String) :
    (wants.add table want)[name]? =
      if table = name then some (wants[name]?.elim want fun earlier => earlier.join want)
      else wants[name]? := by
  rw [add, ByName.getElem?_alter]
  by_cases own : table = name
  · subst own
    rw [if_pos rfl, if_pos rfl]
    cases wants[table]? <;> rfl
  · rw [if_neg own, if_neg own]

/-- Whether a row is among what is wanted. -/
def Covers (wants : Wants) (table rowKey : String) : Prop :=
  ∃ want, wants[table]? = some want ∧ want.covers rowKey = true

/-- A table is wanted whole after one more want if it was or is now. -/
theorem add_eq_whole_iff (want : Want) :
    (wants.add other want)[name]? = some .whole ↔
      wants[name]? = some .whole ∨ other = name ∧ want = .whole := by
  rw [getElem?_add]
  by_cases own : other = name
  · rw [if_pos own]
    cases wants[name]? with
    | none => simp [own]
    | some earlier => simp [own, Want.join_eq_whole_iff]
  · simp [own]

private theorem covers_add_iff (want : Want) :
    (wants.add other want).Covers name rowKey ↔
      wants.Covers name rowKey ∨ other = name ∧ want.covers rowKey = true := by
  unfold Covers
  rw [getElem?_add]
  by_cases own : other = name
  · rw [if_pos own]
    cases wants[name]? with
    | none => simp [own]
    | some earlier => simp [own, Want.covers_join]
  · simp [own]

/-- The wants with some more. -/
def addAll (wants : Wants) (asks : List (String × Want)) : Wants :=
  asks.foldl (fun wants ask => wants.add ask.1 ask.2) wants

/-- What is wanted after some more wants. -/
theorem addAll_spec (asks : List (String × Want)) (wants : Wants) (name : String) :
    ((wants.addAll asks)[name]? = some .whole ↔ wants[name]? = some .whole ∨ (name, .whole) ∈ asks) ∧
      (∀ rowKey, (wants.addAll asks).Covers name rowKey ↔
        wants.Covers name rowKey ∨ ∃ want, (name, want) ∈ asks ∧ want.covers rowKey = true) ∧
      ((wants.addAll asks)[name]?.isSome ↔ wants[name]?.isSome ∨ ∃ want, (name, want) ∈ asks) := by
  unfold addAll
  induction asks generalizing wants with
  | nil => simp
  | cons ask asks ih =>
      obtain ⟨own, want⟩ := ask
      obtain ⟨whole, covers, some⟩ := ih (wants.add own want)
      refine ⟨whole.trans ?_, fun rowKey => (covers rowKey).trans ?_, some.trans ?_⟩
      · rw [add_eq_whole_iff, or_assoc, List.mem_cons, Prod.mk.injEq]
        simp only [eq_comm]
      · rw [covers_add_iff, or_assoc]
        refine or_congr_right ⟨?_, ?_⟩
        · rintro (⟨rfl, covered⟩ | ⟨more, member, covered⟩)
          · exact ⟨want, List.mem_cons_self, covered⟩
          · exact ⟨more, List.mem_cons_of_mem _ member, covered⟩
        · rintro ⟨more, member, covered⟩
          rcases List.mem_cons.mp member with same | later
          · cases same
            exact Or.inl ⟨rfl, covered⟩
          · exact Or.inr ⟨more, later, covered⟩
      · have first : (wants.add own want)[name]?.isSome ↔ wants[name]?.isSome ∨ own = name := by
          rw [getElem?_add]
          by_cases same : own = name <;> simp [same]
        rw [first, or_assoc]
        refine or_congr_right ⟨?_, ?_⟩
        · rintro (rfl | ⟨more, member⟩)
          · exact ⟨want, List.mem_cons_self⟩
          · exact ⟨more, List.mem_cons_of_mem _ member⟩
        · rintro ⟨more, member⟩
          rcases List.mem_cons.mp member with same | later
          · cases same
            exact Or.inl rfl
          · exact Or.inr ⟨more, later⟩

end Wants

namespace Dependency

variable {schema : Schema} {remaining : Names} {wants : Wants} {table : TableSchema}
  {name other : String} {keys : Names}

/-- The tables that some of them bring in: these, and those that the must rules of a table name that is
brought in. -/
inductive Brings (schema : Schema) (first : String → Prop) : String → Prop
  | first {name : String} (wanted : first name) : Brings schema first name
  | next {name other : String} {table : TableSchema} (before : Brings schema first name)
      (known : schema.table? name = some table) (named : other ∈ table.dependentTables) :
      Brings schema first other

/-- Tables wanted as a whole are wanted no other way. -/
theorem getElem?_wantWhole (wants : Wants) (tables : List String) (name : String) :
    (wantWhole wants tables)[name]? = if name ∈ tables then some .whole else wants[name]? := by
  unfold wantWhole
  induction tables generalizing wants with
  | nil => rfl
  | cons table tables ih =>
      rw [List.foldl_cons, ih, Wants.getElem?_add]
      by_cases later : name ∈ tables
      · rw [if_pos later, if_pos (List.mem_cons_of_mem _ later)]
      · rw [if_neg later]
        by_cases own : table = name
        · rw [if_pos own, if_pos (own ▸ List.mem_cons_self)]
          cases wants[name]? with
          | none => rfl
          | some earlier => cases earlier <;> rfl
        · rw [if_neg own, if_neg fun member => (List.mem_cons.mp member).elim (own ·.symm) later]

/-- A list of loads as the order makes it, case by case: the first table that is wanted is loaded, unless
it is in whole already. -/
inductive Loads (schema : Schema) : Names → Wants → List (String × Want) → Prop
  | none {remaining : Names} {wants : Wants} (nothing : ∀ name : String, wants[name]? = none) :
      Loads schema remaining wants []
  | unknown {remaining : Names} {wants : Wants} {loads : List (String × Want)} {name : String}
      {want : Want} (wanted : wants[name]? = some want) (unknown : schema.table? name = .none)
      (rest : Loads schema remaining (wants.erase name) loads) :
      Loads schema remaining wants ((name, want) :: loads)
  | rows {remaining : Names} {wants : Wants} {loads : List (String × Want)} {name : String}
      {keys : Names} (wanted : wants[name]? = some (.rows keys)) (out : name ∈ remaining)
      (rest : Loads schema remaining (wants.erase name) loads) :
      Loads schema remaining wants ((name, .rows keys) :: loads)
  | whole {remaining : Names} {wants : Wants} {loads : List (String × Want)} {name : String}
      {table : TableSchema} (wanted : wants[name]? = some .whole)
      (known : schema.table? name = some table) (out : name ∈ remaining)
      (rest : Loads schema (remaining.erase name)
        (wantWhole (wants.erase name) ((remaining.erase name) ∩ table.dependentTables).toList) loads) :
      Loads schema remaining wants ((name, .whole) :: loads)
  | loaded {remaining : Names} {wants : Wants} {loads : List (String × Want)} {name : String}
      {want : Want} (wanted : wants[name]? = some want) (known : (schema.table? name).isSome)
      (inside : name ∉ remaining) (rest : Loads schema remaining (wants.erase name) loads) :
      Loads schema remaining wants loads

private theorem loads_order (schema : Schema) (remaining : Names) (wants : Wants) :
    Loads schema remaining wants (order schema remaining wants) := by
  have stored : ∀ {wants : Wants} {name : String}, wants.keys.head? = some name →
      wants[name]? = some (wants[name]?.getD .whole) := by
    intro wants name first
    have inside := Std.ExtTreeMap.mem_keys.mp (List.mem_of_head? first)
    obtain ⟨want, held⟩ := Option.isSome_iff_exists.mp (Std.ExtTreeMap.mem_iff_isSome_getElem?.mp inside)
    rw [held]
    rfl
  fun_induction order schema remaining wants with
  | case1 remaining wants first =>
      refine .none fun name => Std.ExtTreeMap.getElem?_eq_none fun inside => ?_
      rw [List.head?_eq_none_iff] at first
      exact List.not_mem_nil (first ▸ Std.ExtTreeMap.mem_keys.mpr inside)
  | case2 remaining wants name first _ _ _ unknown ih => exact .unknown (stored first) unknown ih
  | case3 remaining wants name first _ want _ table known out _ keys same ih =>
      have wanted : wants[name]? = some want := stored first
      rw [same] at wanted ⊢
      exact .rows wanted out ih
  | case4 remaining wants name first _ want _ table known out _ same _ ih =>
      have wanted : wants[name]? = some want := stored first
      rw [same] at wanted ⊢
      exact .whole wanted known out ih
  | case5 remaining wants name first _ _ table known inside ih =>
      exact .loaded (stored first) (Option.isSome_iff_exists.mpr ⟨table, known⟩) inside ih

namespace Loads

variable {loads : List (String × Want)} {want : Want} {tables : List String}

private theorem of_erase (held : (wants.erase other)[name]? = some want) :
    other ≠ name ∧ wants[name]? = some want := by
  rw [ByName.getElem?_erase] at held
  split at held
  · cases held
  · next apart => exact ⟨apart, held⟩

private theorem getElem?_erase_of_ne (apart : other ≠ name) (held : wants[name]? = some want) :
    (wants.erase other)[name]? = some want := by
  rwa [ByName.getElem?_erase, if_neg apart]

private theorem mem_erase_of_ne (apart : other ≠ name) (out : name ∈ remaining) :
    name ∈ remaining.erase other :=
  Std.ExtTreeSet.mem_erase.mpr ⟨by simpa using apart, out⟩

private theorem of_wantWhole_erase (held : (wantWhole (wants.erase other) tables)[name]? = some want) :
    name ∈ tables ∧ want = .whole ∨ other ≠ name ∧ wants[name]? = some want := by
  rw [getElem?_wantWhole] at held
  split at held
  · next inside => exact Or.inl ⟨inside, (Option.some.inj held).symm⟩
  · exact Or.inr (of_erase held)

/-- Single rows are loaded of a table only if they are wanted from the start. -/
theorem wants_of_rows (order : Loads schema remaining wants loads)
    (loaded : (name, .rows keys) ∈ loads) : wants[name]? = some (.rows keys) := by
  induction order with
  | none => cases loaded
  | unknown wanted unknown rest ih =>
      rcases List.mem_cons.mp loaded with same | later
      · cases same
        exact wanted
      · exact (of_erase (ih later)).2
  | rows wanted out rest ih =>
      rcases List.mem_cons.mp loaded with same | later
      · cases same
        exact wanted
      · exact (of_erase (ih later)).2
  | whole wanted known out rest ih =>
      rcases List.mem_cons.mp loaded with same | later
      · cases same
      · rcases of_wantWhole_erase (ih later) with ⟨_, impossible⟩ | ⟨_, held⟩
        · cases impossible
        · exact held
  | loaded wanted known inside rest ih => exact (of_erase (ih loaded)).2

/-- A table that the schema has is loaded whole only while it is not in whole. -/
theorem mem_remaining_of_whole (order : Loads schema remaining wants loads)
    (loaded : (name, .whole) ∈ loads) (known : (schema.table? name).isSome) : name ∈ remaining := by
  induction order with
  | none => cases loaded
  | unknown wanted unknown rest ih =>
      rcases List.mem_cons.mp loaded with same | later
      · cases same
        rw [unknown] at known
        cases known
      · exact ih later
  | rows wanted out rest ih =>
      rcases List.mem_cons.mp loaded with same | later
      · cases same
      · exact ih later
  | whole wanted own out rest ih =>
      rcases List.mem_cons.mp loaded with same | later
      · cases same
        exact out
      · exact Std.ExtTreeSet.mem_of_mem_erase (ih later)
  | loaded wanted own inside rest ih => exact ih loaded

/-- What is loaded whole is brought in by what is wanted whole. -/
theorem brings_of_whole {first : String → Prop} (order : Loads schema remaining wants loads)
    (start : ∀ name : String, wants[name]? = some .whole → Brings schema first name)
    (loaded : (name, .whole) ∈ loads) : Brings schema first name := by
  induction order with
  | none => cases loaded
  | unknown wanted unknown rest ih =>
      rcases List.mem_cons.mp loaded with same | later
      · cases same
        exact start _ wanted
      · exact ih (fun name held => start name (of_erase held).2) later
  | rows wanted out rest ih =>
      rcases List.mem_cons.mp loaded with same | later
      · cases same
      · exact ih (fun name held => start name (of_erase held).2) later
  | whole wanted known out rest ih =>
      rcases List.mem_cons.mp loaded with same | later
      · cases same
        exact start _ wanted
      · refine ih (fun name held => ?_) later
        rcases of_wantWhole_erase held with ⟨inside, _⟩ | ⟨_, earlier⟩
        · rw [Std.ExtTreeSet.mem_toList, Std.ExtTreeSet.mem_inter_iff] at inside
          exact .next (start _ wanted) known inside.2
        · exact start name earlier
  | loaded wanted known inside rest ih =>
      exact ih (fun name held => start name (of_erase held).2) loaded

/-- A table that is wanted whole is loaded whole, if it is not in whole already. -/
theorem whole_of_wants (order : Loads schema remaining wants loads)
    (wanted : wants[name]? = some .whole) (out : name ∈ remaining) : (name, .whole) ∈ loads := by
  induction order with
  | none nothing =>
      rw [nothing] at wanted
      cases wanted
  | @unknown _ _ _ other want own unknown rest ih =>
      by_cases same : other = name
      · subst same
        cases own.symm.trans wanted
        exact List.mem_cons_self
      · exact List.mem_cons_of_mem _ (ih (getElem?_erase_of_ne same wanted) out)
  | @rows _ _ _ other keys own _ rest ih =>
      have apart : other ≠ name := by
        rintro rfl
        cases own.symm.trans wanted
      exact List.mem_cons_of_mem _ (ih (getElem?_erase_of_ne apart wanted) out)
  | @whole _ _ _ other table own known _ rest ih =>
      by_cases same : other = name
      · subst same
        exact List.mem_cons_self
      · refine List.mem_cons_of_mem _ (ih ?_ (mem_erase_of_ne same out))
        rw [getElem?_wantWhole, getElem?_erase_of_ne same wanted, ite_self]
  | @loaded _ _ _ other want own known inside rest ih =>
      have apart : other ≠ name := fun same => inside (same ▸ out)
      exact ih (getElem?_erase_of_ne apart wanted) out

/-- With a table that is loaded whole, those that its must rules name are, if they are not in whole
already. -/
theorem whole_of_dependent (order : Loads schema remaining wants loads)
    (loaded : (name, .whole) ∈ loads) (known : schema.table? name = some table)
    (named : other ∈ table.dependentTables) (out : other ∈ remaining) : (other, .whole) ∈ loads := by
  induction order with
  | none => cases loaded
  | unknown wanted unknown rest ih =>
      rcases List.mem_cons.mp loaded with same | later
      · cases same
        cases known.symm.trans unknown
      · exact List.mem_cons_of_mem _ (ih later out)
  | rows wanted own rest ih =>
      rcases List.mem_cons.mp loaded with same | later
      · cases same
      · exact List.mem_cons_of_mem _ (ih later out)
  | @whole _ _ _ own ownTable wanted ownKnown _ rest ih =>
      by_cases same : own = other
      · exact same ▸ List.mem_cons_self
      · have still := mem_erase_of_ne same out
        refine List.mem_cons_of_mem _ ?_
        rcases List.mem_cons.mp loaded with here | later
        · cases here
          cases known.symm.trans ownKnown
          refine rest.whole_of_wants ?_ still
          rw [getElem?_wantWhole, if_pos]
          exact Std.ExtTreeSet.mem_toList.mpr (Std.ExtTreeSet.mem_inter_iff.mpr ⟨still, named⟩)
        · exact ih later still
  | loaded wanted ownKnown inside rest ih => exact ih loaded out

/-- Rows that are wanted are loaded, alone or with all of their table. -/
theorem rows_or_whole (order : Loads schema remaining wants loads)
    (wanted : wants[name]? = some (.rows keys)) (out : name ∈ remaining) :
    (name, .rows keys) ∈ loads ∨ (name, .whole) ∈ loads := by
  induction order with
  | none nothing =>
      rw [nothing] at wanted
      cases wanted
  | @unknown _ _ _ other _ own _ _ ih | @rows _ _ _ other _ own _ _ ih =>
      by_cases same : other = name
      · subst same
        cases own.symm.trans wanted
        exact Or.inl List.mem_cons_self
      · exact (ih (getElem?_erase_of_ne same wanted) out).imp (List.mem_cons_of_mem _)
          (List.mem_cons_of_mem _)
  | @whole remaining wants _ other table own known _ rest ih =>
      have apart : other ≠ name := by
        rintro rfl
        cases own.symm.trans wanted
      have still := mem_erase_of_ne apart out
      by_cases named : name ∈ ((remaining.erase other) ∩ table.dependentTables).toList
      · exact Or.inr (List.mem_cons_of_mem _ (rest.whole_of_wants
          (by rw [getElem?_wantWhole, if_pos named]) still))
      · refine (ih ?_ still).imp (List.mem_cons_of_mem _) (List.mem_cons_of_mem _)
        rw [getElem?_wantWhole, if_neg named]
        exact getElem?_erase_of_ne apart wanted
  | @loaded _ _ _ other want own known inside rest ih =>
      have apart : other ≠ name := fun same => inside (same ▸ out)
      exact ih (getElem?_erase_of_ne apart wanted) out

/-- A table is loaded once, or its rows that are wanted first and then all of it. -/
theorem pairwise (order : Loads schema remaining wants loads) :
    loads.Pairwise fun first second => first.1 = second.1 → (schema.table? first.1).isSome →
      (∃ keys, first.2 = .rows keys) ∧ second.2 = .whole := by
  induction order with
  | none => exact .nil
  | unknown wanted unknown rest ih =>
      refine .cons (fun later member same known => ?_) ih
      rw [unknown] at known
      cases known
  | rows wanted out rest ih =>
      refine .cons (fun later member same known => ⟨⟨_, rfl⟩, ?_⟩) ih
      obtain ⟨own, want⟩ := later
      cases want with
      | whole => rfl
      | rows keys => exact absurd same (of_erase (rest.wants_of_rows member)).1
  | whole wanted known out rest ih =>
      refine .cons (fun later member same isKnown => False.elim ?_) ih
      obtain ⟨own, want⟩ := later
      cases same
      cases want with
      | whole =>
          have still := rest.mem_remaining_of_whole member isKnown
          simp at still
      | rows keys =>
          rcases of_wantWhole_erase (rest.wants_of_rows member) with ⟨_, impossible⟩ | ⟨apart, _⟩
          · cases impossible
          · exact apart rfl
  | loaded wanted known inside rest ih => exact ih

end Loads

/-- All names of tables of a schema. -/
def tableNames (schema : Schema) : Names :=
  schema.tables.keys.foldl (fun names name => names.insert name) ∅

private theorem mem_tableNames_iff : name ∈ tableNames schema ↔ (schema.table? name).isSome := by
  rw [tableNames, Names.mem_foldl_insert, List.map_id', Std.ExtTreeMap.mem_keys,
    Std.ExtTreeMap.mem_iff_isSome_getElem?]
  simp [Schema.table?]

/-- What is loaded of a table, in order. -/
def loadsOf (loads : List (String × Want)) (name : String) : List Want :=
  (loads.filter fun load => load.1 = name).map Prod.snd

private theorem mem_loadsOf_iff {loads : List (String × Want)} {want : Want} :
    want ∈ loadsOf loads name ↔ (name, want) ∈ loads := by
  unfold loadsOf
  rw [List.mem_map]
  constructor
  · rintro ⟨⟨own, want⟩, member, rfl⟩
    obtain ⟨inside, same⟩ := List.mem_filter.mp member
    cases of_decide_eq_true same
    exact inside
  · exact fun member => ⟨_, List.mem_filter.mpr ⟨member, decide_eq_true rfl⟩, rfl⟩

section Order

variable (schema wants) (known : (schema.table? name).isSome)

/-- What is loaded where all of a schema can be. -/
def allLoads : List (String × Want) :=
  order schema (tableNames schema) wants

include known

/-- Of a table nothing is loaded, or it is loaded once, or some of its rows and then all of it. -/
theorem loadsOf_cases :
    loadsOf (allLoads schema wants) name = [] ∨ (∃ want, loadsOf (allLoads schema wants) name = [want]) ∨
      ∃ keys, loadsOf (allLoads schema wants) name = [.rows keys, .whole] := by
  have apart : (loadsOf (allLoads schema wants) name).Pairwise fun first second =>
      (∃ keys, first = .rows keys) ∧ second = .whole := by
    have whole := (loads_order schema (tableNames schema) wants).pairwise.filter
      fun load => load.1 = name
    refine List.pairwise_map.mpr (whole.imp_of_mem fun {first second} member also related => ?_)
    have own : first.1 = name := of_decide_eq_true (List.mem_filter.mp member).2
    have other : second.1 = name := of_decide_eq_true (List.mem_filter.mp also).2
    exact related (own.trans other.symm) (own ▸ known)
  generalize loadsOf (allLoads schema wants) name = loads at apart
  match loads with
  | [] => exact Or.inl rfl
  | [want] => exact Or.inr (Or.inl ⟨want, rfl⟩)
  | [first, second] =>
      obtain ⟨⟨keys, rfl⟩, rfl⟩ := (List.pairwise_cons.mp apart).1 second List.mem_cons_self
      exact Or.inr (Or.inr ⟨keys, rfl⟩)
  | first :: second :: third :: rest =>
      obtain ⟨own, later⟩ := List.pairwise_cons.mp apart
      obtain ⟨⟨keys, impossible⟩, _⟩ := (List.pairwise_cons.mp later).1 third List.mem_cons_self
      rw [(own second List.mem_cons_self).2] at impossible
      cases impossible

/-- No table is loaded more than twice. -/
theorem length_loadsOf_le : (loadsOf (allLoads schema wants) name).length ≤ 2 := by
  rcases loadsOf_cases schema wants known with none | ⟨want, one⟩ | ⟨keys, two⟩
  · rw [none]
    exact Nat.zero_le 2
  · rw [one]
    exact Nat.le_succ 1
  · rw [two]
    exact Nat.le_refl 2

/-- A table is loaded whole exactly if what is wanted whole brings it in. -/
theorem whole_mem_loadsOf_iff :
    .whole ∈ loadsOf (allLoads schema wants) name ↔
      Brings schema (fun name => wants[name]? = some .whole) name := by
  rw [mem_loadsOf_iff]
  have order := loads_order schema (tableNames schema) wants
  constructor
  · exact order.brings_of_whole fun _ wanted => .first wanted
  · intro brings
    induction brings with
    | first wanted => exact order.whole_of_wants wanted (mem_tableNames_iff.mpr known)
    | @next earlier other table before own named ih =>
        have there : (schema.table? earlier).isSome := Option.isSome_iff_exists.mpr ⟨table, own⟩
        exact order.whole_of_dependent (ih there) own named (mem_tableNames_iff.mpr known)

/-- Rows of a table are loaded only if they are wanted, and they are, unless the table is loaded whole. -/
theorem rows_mem_loadsOf (keys : Names) :
    (.rows keys ∈ loadsOf (allLoads schema wants) name → wants[name]? = some (.rows keys)) ∧
      (wants[name]? = some (.rows keys) → .rows keys ∈ loadsOf (allLoads schema wants) name ∨
        .whole ∈ loadsOf (allLoads schema wants) name) := by
  rw [mem_loadsOf_iff, mem_loadsOf_iff]
  have order := loads_order schema (tableNames schema) wants
  exact ⟨order.wants_of_rows, fun wanted =>
    order.rows_or_whole wanted (mem_tableNames_iff.mpr known)⟩

end Order

end Dependency

end ConfigVetting
