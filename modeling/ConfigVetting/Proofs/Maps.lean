import ConfigVetting.Rows

/-! # Maps by name

Lookups in maps that are made entry by entry.
-/

namespace ConfigVetting

namespace ByName

variable {β γ : Type}

/-- The list of a single value. -/
theorem toList_single (name : String) (value : β) :
    ((∅ : ByName β).insert name value).toList = [(name, value)] := by
  have single : ((∅ : ByName β).insert name value).toList.length = 1 := by
    simp [Std.ExtTreeMap.length_toList, Std.ExtTreeMap.size_insert]
  obtain ⟨entry, whole⟩ := List.length_eq_one_iff.mp single
  have member : (name, value) ∈ ((∅ : ByName β).insert name value).toList := by
    rw [Std.ExtTreeMap.mem_toList_iff_getElem?_eq_some, Std.ExtTreeMap.getElem?_insert_self]
  rw [whole, List.mem_singleton] at member
  rw [whole, member]

/-- Looking up a name after another value was put under one. -/
theorem getElem?_insert (values : ByName β) (name : String) (value : β) (other : String) :
    (values.insert name value)[other]? = if name = other then some value else values[other]? := by
  simp only [Std.ExtTreeMap.getElem?_insert, Std.LawfulEqCmp.compare_eq_iff_eq]

/-- Looking up a name after one was taken out. -/
theorem getElem?_erase (values : ByName β) (name other : String) :
    (values.erase name)[other]? = if name = other then none else values[other]? := by
  rw [Std.ExtTreeMap.getElem?_erase]
  simp only [Std.LawfulEqCmp.compare_eq_iff_eq]

/-- Looking up a name after what is under one was changed. -/
theorem getElem?_alter (values : ByName β) (name : String) (change : Option β → Option β)
    (other : String) :
    (values.alter name change)[other]? =
      if name = other then change values[name]? else values[other]? := by
  simp only [Std.ExtTreeMap.getElem?_alter, Std.LawfulEqCmp.compare_eq_iff_eq]

/-- The values of a map are those of its entries. -/
theorem values_eq (values : ByName β) : values.values = values.toList.map Prod.snd := by
  obtain ⟨inner⟩ := values
  induction inner with
  | mk tree =>
      change tree.values = (Std.DTreeMap.Const.toList tree).map Prod.snd
      obtain ⟨tree, wellFormed⟩ := tree
      change tree.values = (Std.DTreeMap.Internal.Impl.Const.toList tree).map Prod.snd
      rw [Std.DTreeMap.Internal.Impl.values_eq_map_snd,
        Std.DTreeMap.Internal.Impl.Const.toList_eq_toListModel_map]
      simp

/-- The entry of a name is the first with it. -/
theorem find?_toList (values : ByName β) (name : String) :
    values.toList.find? (fun entry => entry.1 = name) = values[name]?.map fun value => (name, value) := by
  cases found : values.toList.find? fun entry => entry.1 = name with
  | none =>
      cases stored : values[name]? with
      | none => rfl
      | some value =>
          have outside := List.find?_eq_none.mp found _
            (Std.ExtTreeMap.mem_toList_iff_getElem?_eq_some.mpr stored)
          simp at outside
  | some entry =>
      obtain ⟨own, value⟩ := entry
      have same : own = name := by simpa using List.find?_some found
      subst same
      rw [Std.ExtTreeMap.mem_toList_iff_getElem?_eq_some.mp (List.mem_of_find?_eq_some found)]
      rfl

/-- The values of a map are those under some name. -/
theorem mem_values_iff {values : ByName β} {value : β} :
    value ∈ values.values ↔ ∃ name : String, values[name]? = some value := by
  simp only [values_eq, List.mem_map, Prod.exists, exists_eq_right,
    Std.ExtTreeMap.mem_toList_iff_getElem?_eq_some]

/-- The entries of a map have different names. -/
theorem nodup_toList (values : ByName β) : (values.toList.map Prod.fst).Nodup := by
  rw [List.Nodup, List.pairwise_map]
  refine values.distinct_keys_toList.imp fun {first second} apart same => apart ?_
  rw [Std.LawfulEqCmp.compare_eq_iff_eq]
  exact same

/-- A value of a map made by inserting values one after another is one of them, or was there
before. -/
theorem mem_of_foldl_insert {α : Type} {key : α → String} {value : α → β} {items : List α}
    {values : ByName β} {name : String} {found : β}
    (inside : (items.foldl (fun values item => values.insert (key item) (value item)) values)[name]? =
      some found) :
    (∃ item ∈ items, key item = name ∧ value item = found) ∨ values[name]? = some found := by
  induction items generalizing values with
  | nil => exact Or.inr inside
  | cons item items ih =>
      rcases ih inside with ⟨later, member, named⟩ | before
      · exact Or.inl ⟨later, List.mem_cons_of_mem _ member, named⟩
      · rw [getElem?_insert] at before
        by_cases same : key item = name
        · rw [if_pos same] at before
          exact Or.inl ⟨item, List.mem_cons_self, same, Option.some.inj before⟩
        · rw [if_neg same] at before
          exact Or.inr before

/-- A key that is inserted is there. -/
theorem isSome_foldl_insert {α : Type} {key : α → String} {value : α → β} {items : List α}
    {values : ByName β} {name : String}
    (given : (∃ item ∈ items, key item = name) ∨ values[name]?.isSome) :
    (items.foldl (fun values item => values.insert (key item) (value item)) values)[name]?.isSome := by
  induction items generalizing values with
  | nil =>
      rcases given with ⟨item, member, _⟩ | held
      · cases member
      · exact held
  | cons item items ih =>
      refine ih ?_
      rcases given with ⟨one, member, named⟩ | held
      · rcases List.mem_cons.mp member with rfl | later
        · right
          rw [getElem?_insert, if_pos named]
          rfl
        · exact Or.inl ⟨one, later, named⟩
      · right
        rw [getElem?_insert]
        split
        · rfl
        · exact held

/-- Changing one value changes the number of values by whether it was there and whether it is. -/
theorem size_alter_add (values : ByName β) (name : String) (change : Option β → Option β) :
    (values.alter name change).size + (if name ∈ values then 1 else 0) =
      values.size + if (change values[name]?).isSome then 1 else 0 := by
  rw [Std.ExtTreeMap.size_alter, ← Option.not_isSome]
  by_cases there : name ∈ values
  · have filled : 0 < values.size := Nat.pos_of_ne_zero fun none => by
      rw [← Std.ExtTreeMap.eq_empty_iff_size_eq_zero] at none
      simp [none] at there
    cases (change values[name]?).isSome <;> simp [there]
    omega
  · cases (change values[name]?).isSome <;> simp [there]

/-- Among items of other names, none of a name is found. -/
theorem find?_eq_none_of_notMem {α : Type} {key : α → String} {items : List α} {name : String}
    (absent : name ∉ items.map key) : items.find? (fun item => key item = name) = none :=
  List.find?_eq_none.mpr fun _ member same =>
    absent (of_decide_eq_true same ▸ List.mem_map_of_mem member)

/-- Changing values one after another changes each of them once if their names differ. -/
theorem getElem?_foldl_alter {α : Type} (change : α → Option β → Option β)
    {items : List (String × α)} (apart : (items.map Prod.fst).Nodup) (values : ByName β)
    (name : String) :
    (items.foldl (fun values item => values.alter item.1 (change item.2)) values)[name]? =
      ((items.find? fun item => item.1 = name).map fun item => change item.2 values[name]?).getD
        values[name]? := by
  induction items generalizing values with
  | nil => rfl
  | cons item items ih =>
      rw [List.map_cons, List.nodup_cons] at apart
      rw [List.foldl_cons, ih apart.2, getElem?_alter]
      by_cases own : item.1 = name
      · subst own
        rw [find?_eq_none_of_notMem apart.1, List.find?_cons_of_pos (by simp)]
        simp
      · rw [List.find?_cons_of_neg (by simpa using own), if_neg own]

/-- A name does not stand before itself. -/
theorem ne_of_compare_lt {first second : String} (ordered : compare first second = .lt) :
    first ≠ second := fun same => by
  subst same
  exact absurd (Std.ReflCmp.compare_self.symm.trans ordered) nofun

/-- The entries of a map stand in the order of their names. -/
theorem pairwise_toList (values : ByName β) :
    values.toList.Pairwise fun first second => compare first.1 second.1 = .lt :=
  Std.ExtTreeMap.ordered_keys_toList

/-- The entries of a map stand before and behind one of them as their names do. -/
theorem exists_split {values : ByName β} {name : String} {value : β}
    (held : values[name]? = some value) :
    ∃ before after, values.toList = before ++ (name, value) :: after ∧
      ∀ entry ∈ values.toList, (compare entry.1 name = .lt → entry ∈ before) ∧
        (compare name entry.1 = .lt → entry ∈ after) := by
  obtain ⟨before, after, split⟩ := List.append_of_mem
    (Std.ExtTreeMap.mem_toList_iff_getElem?_eq_some.mpr held)
  have sorted := values.pairwise_toList
  rw [split, List.pairwise_append, List.pairwise_cons] at sorted
  obtain ⟨_, ⟨behind, _⟩, ahead⟩ := sorted
  have irreflexive : ∀ {own : String}, compare own own ≠ .lt := fun less => ne_of_compare_lt less rfl
  refine ⟨before, after, split, fun entry member => ?_⟩
  rw [split, List.mem_append, List.mem_cons] at member
  rcases member with inside | rfl | inside
  · have less := ahead entry inside _ List.mem_cons_self
    exact ⟨fun _ => inside, fun more => absurd (Std.TransCmp.lt_trans less more) irreflexive⟩
  · exact ⟨fun less => absurd less irreflexive, fun more => absurd more irreflexive⟩
  · have more := behind entry inside
    exact ⟨fun less => absurd (Std.TransCmp.lt_trans less more) irreflexive, fun _ => inside⟩

/-- What is gathered from the entries of a map comes from one of them, if all others have nothing. -/
theorem flatMap_toList_of_own (values : ByName β) {gather : String × β → List γ} {name : String}
    (others : ∀ entry, entry.1 ≠ name → gather entry = []) :
    values.toList.flatMap gather = values[name]?.toList.flatMap fun value => gather (name, value) := by
  have found := values.find?_toList name
  have apart := values.nodup_toList
  generalize values[name]? = value at found
  generalize values.toList = entries at found apart
  induction entries with
  | nil =>
      cases value with
      | none => rfl
      | some value => cases found
  | cons entry entries ih =>
      rw [List.map_cons, List.nodup_cons] at apart
      by_cases own : entry.1 = name
      · have rest : entries.flatMap gather = [] := List.flatMap_eq_nil_iff.mpr fun later member =>
          others later fun same => apart.1 (own ▸ same ▸ List.mem_map_of_mem member)
        rw [List.find?_cons_of_pos (by simpa using own)] at found
        obtain ⟨value, rfl, rfl⟩ := Option.map_eq_some_iff.mp found.symm
        rw [List.flatMap_cons, rest]
        rfl
      · rw [List.find?_cons_of_neg (by simpa using own)] at found
        rw [List.flatMap_cons, others entry own, ih found apart.2, List.nil_append]

/-- What is gathered from the entries of a map comes from two of them in their order, if all others
have nothing. -/
theorem flatMap_toList_of_two (values : ByName β) {gather : String × β → List γ}
    {first second : String} (ordered : compare first second = .lt)
    (others : ∀ entry, entry.1 ≠ first → entry.1 ≠ second → gather entry = []) :
    values.toList.flatMap gather =
      (values[first]?.toList.flatMap fun value => gather (first, value)) ++
        values[second]?.toList.flatMap fun value => gather (second, value) := by
  have different := ne_of_compare_lt ordered
  have parts : values.toList.flatMap gather =
      values.toList.flatMap (fun entry => if entry.1 = first then gather entry else []) ++
        values.toList.flatMap fun entry => if entry.1 = second then gather entry else [] := by
    have sorted := values.pairwise_toList
    generalize values.toList = entries at sorted
    induction entries with
    | nil => rfl
    | cons entry entries ih =>
        rw [List.pairwise_cons] at sorted
        rw [List.flatMap_cons, List.flatMap_cons, List.flatMap_cons, ih sorted.2]
        by_cases own : entry.1 = first
        · rw [if_pos own, if_neg (own ▸ different), List.append_assoc, List.nil_append]
        · by_cases other : entry.1 = second
          · -- The first name comes no more once the second one has come.
            have none : (entries.flatMap fun later =>
                if later.1 = first then gather later else []) = [] := by
              refine List.flatMap_eq_nil_iff.mpr fun later member => if_neg fun same => ?_
              have wrong := sorted.1 later member
              rw [other, same, ← Std.OrientedCmp.gt_iff_lt, ordered] at wrong
              cases wrong
            rw [none, if_neg own, if_pos other]
            rfl
          · rw [others entry own other, if_neg own, if_neg other]
            rfl
  rw [parts, flatMap_toList_of_own values fun entry other => if_neg other,
    flatMap_toList_of_own values fun entry other => if_neg other]
  simp only [↓reduceIte]

/-- Inserting values of different names one after another leaves each of them. -/
theorem getElem?_foldl_insert {α : Type} {key : α → String} {value : α → β} {items : List α}
    (apart : (items.map key).Nodup) (values : ByName β) (name : String) :
    (items.foldl (fun values item => values.insert (key item) (value item)) values)[name]? =
      ((items.find? fun item => key item = name).map value).or values[name]? := by
  induction items generalizing values with
  | nil => rfl
  | cons item items ih =>
      rw [List.map_cons, List.nodup_cons] at apart
      rw [List.foldl_cons, ih apart.2, getElem?_insert]
      by_cases own : key item = name
      · rw [find?_eq_none_of_notMem (own ▸ apart.1), List.find?_cons_of_pos (by simpa using own),
          if_pos own]
        rfl
      · rw [List.find?_cons_of_neg (by simpa using own), if_neg own]

/-- A name that every item may set anew has the value of the last that does. -/
theorem getElem?_foldl_of_step {α : Type} {step : ByName β → α → ByName β} {own : α → Option β}
    {name : String} (each : ∀ values item, (step values item)[name]? = (own item).or values[name]?)
    (items : List α) (values : ByName β) :
    (items.foldl step values)[name]? = ((items.filterMap own).getLast?).or values[name]? := by
  induction items generalizing values with
  | nil => rfl
  | cons item items ih =>
      rw [List.foldl_cons, ih, each, List.filterMap_cons]
      cases own item with
      | none => rfl
      | some value =>
          simp only
          rw [List.getLast?_cons]
          cases (items.filterMap own).getLast? <;> rfl

/-- A map is empty if nothing is under any name. -/
theorem isEmpty_iff {values : ByName β} : values.isEmpty ↔ ∀ name : String, values[name]? = none := by
  rw [Std.ExtTreeMap.isEmpty_iff]
  refine ⟨fun empty name => by rw [empty]; rfl, fun none => Std.ExtTreeMap.ext_getElem? fun name => ?_⟩
  rw [none name]
  rfl

/-- What is gathered from the entries of two maps is the same if it is for each name. -/
theorem flatMap_toList_congr {first second : ByName β} {gather : String × β → List γ}
    (each : ∀ name : String, (first[name]?.toList.flatMap fun value => gather (name, value)) =
      second[name]?.toList.flatMap fun value => gather (name, value)) :
    first.toList.flatMap gather = second.toList.flatMap gather := by
  let some? (name : String) (value : β) : Option (List γ) :=
    if (gather (name, value)).isEmpty then none else some (gather (name, value))
  have gathered : ∀ values : ByName β,
      values.toList.flatMap gather = (values.filterMap some?).toList.flatMap Prod.snd := by
    intro values
    rw [Std.ExtTreeMap.toList_filterMap]
    induction values.toList with
    | nil => rfl
    | cons entry entries ih =>
        rw [List.flatMap_cons, List.filterMap_cons, ih]
        cases held : gather entry <;> simp [some?, held]
  have same : first.filterMap some? = second.filterMap some? := by
    refine Std.ExtTreeMap.ext_getElem? fun name => ?_
    have own := each name
    rw [Std.ExtTreeMap.getElem?_filterMap', Std.ExtTreeMap.getElem?_filterMap']
    have texts : ∀ held : Option β, held.bind (some? name) =
        if (held.toList.flatMap fun value => gather (name, value)).isEmpty then none
        else some (held.toList.flatMap fun value => gather (name, value)) := by
      intro held
      cases held <;> simp [some?]
    rw [texts, texts, own]
  rw [gathered, gathered, same]

end ByName

/-- The names in a set that is made by inserting names one after another. -/
theorem Names.mem_foldl_insert {α : Type} {key : α → String} {items : List α} {names : Names}
    {name : String} :
    name ∈ items.foldl (fun names item => names.insert (key item)) names ↔
      name ∈ items.map key ∨ name ∈ names := by
  induction items generalizing names with
  | nil => simp
  | cons item items ih =>
      rw [List.foldl_cons, ih, Std.ExtTreeSet.mem_insert, Std.LawfulEqCmp.compare_eq_iff_eq,
        List.map_cons, List.mem_cons, ← @eq_comm _ name]
      exact or_left_comm.trans or_assoc.symm

namespace TableRows

/-- Looking up a row after one was put in. -/
theorem keyed_put (rows : TableRows) (table rowKey : String) (fields : Fields)
    (otherTable otherKey : String) :
    ((rows.put table rowKey fields).keyed otherTable)[otherKey]? =
      if table = otherTable ∧ rowKey = otherKey then some fields
      else (rows.keyed otherTable)[otherKey]? := by
  unfold put keyed
  rw [ByName.getElem?_alter]
  by_cases sameTable : table = otherTable
  · subst sameTable
    simp only [↓reduceIte, Option.getD_some, ByName.getElem?_insert, true_and]
  · simp only [sameTable, ↓reduceIte, false_and]

end TableRows

end ConfigVetting
