import ConfigVetting.Proofs.Cache.Subscribing
import ConfigVetting.Proofs.Document.Instances

/-! # What a backlog leads to

A cached document may be behind the store by the changes that wait to be handled. Key by key the list
instances in the document belong to one row at most, and the waiting changes lead from that row to the
one that is stored, each of them taking out its own row (`ConfigVetting.TableSchema.CatchesUp`). So it
stays when a row is written (`ConfigVetting.TableSchema.CatchesUp.write`) and when the oldest change is
handled with what the store holds by then (`ConfigVetting.TableSchema.CatchesUp.handle`).
-/

namespace ConfigVetting

namespace TableSchema

variable {table : TableSchema} {rows : ByName Fields} {key rowKey : String}

/-- Whether a row of the table is stored. -/
def Stores (table : TableSchema) (rows : ByName Fields) (rowKey : String) : Prop :=
  (rows[table.storeKey rowKey]?).isSome

/-- Whether the stored rows of a table fit it, and no two of them have a list instance in common. -/
structure StandsApart (table : TableSchema) (rows : ByName Fields) : Prop where
  expands : ∀ rowKey, table.Stores rows rowKey →
    ∃ combinations, table.expandKey rowKey = .ok combinations
  apart : ∀ first second key, table.Stores rows first → table.Stores rows second →
    key ∈ table.instanceKeys first → key ∈ table.instanceKeys second → first = second

/-- The stored rows of a table are those listed for it. -/
theorem stores_iff : table.Stores rows rowKey ↔
    ∃ fields, (rowKey, fields) ∈ (Store.tableRows table rows).toList := by
  rw [Stores, ← Store.getElem?_tableRows, Option.isSome_iff_exists]
  exact exists_congr fun _ => Std.ExtTreeMap.mem_toList_iff_getElem?_eq_some.symm

/-- A stored row stands for some combinations, if each row of the table does. -/
theorem exists_expandKey_of_stores
    (each : ∀ row ∈ (Store.tableRows table rows).toList, (table.expandKey row.1).isOk)
    (rowKey : String) (stored : table.Stores rows rowKey) :
    ∃ combinations, table.expandKey rowKey = .ok combinations := by
  obtain ⟨fields, member⟩ := stores_iff.mp stored
  exact Except.exists_of_isOk (each (rowKey, fields) member)

private theorem standsApart_iff : table.StandsApart rows ↔
    ∀ row ∈ (Store.tableRows table rows).toList, (table.expandKey row.1).isOk ∧
      ∀ other ∈ (Store.tableRows table rows).toList, ∀ key ∈ table.instanceKeys row.1,
        key ∈ table.instanceKeys other.1 → row.1 = other.1 := by
  constructor
  · rintro ⟨expands, apart⟩ row member
    have stored := stores_iff.mpr ⟨row.2, member⟩
    obtain ⟨combinations, expanded⟩ := expands row.1 stored
    exact ⟨expanded ▸ rfl, fun other also key inside shared =>
      apart row.1 other.1 key stored (stores_iff.mpr ⟨other.2, also⟩) inside shared⟩
  · refine fun each => ⟨exists_expandKey_of_stores fun row member => (each row member).1,
      fun first second key stored also inside shared => ?_⟩
    obtain ⟨fields, member⟩ := stores_iff.mp stored
    obtain ⟨others, alsoMember⟩ := stores_iff.mp also
    exact (each _ member).2 _ alsoMember key inside shared

instance : Decidable (table.StandsApart rows) :=
  decidable_of_iff _ standsApart_iff.symm

/-- Whether a row is the stored one with a list instance of a key, or none is. -/
def Owns (table : TableSchema) (rows : ByName Fields) (key : String) : Option String → Prop
  | none => ∀ rowKey, table.Stores rows rowKey → key ∉ table.instanceKeys rowKey
  | some rowKey => table.Stores rows rowKey ∧ key ∈ table.instanceKeys rowKey

private theorem exists_owner (table : TableSchema) (rows : ByName Fields) (key : String) :
    ∃ owner, table.Owns rows key owner := by
  by_cases owned : ∃ rowKey, table.Stores rows rowKey ∧ key ∈ table.instanceKeys rowKey
  · obtain ⟨rowKey, own⟩ := owned
    exact ⟨some rowKey, own⟩
  · exact ⟨none, fun rowKey stored inside => owned ⟨rowKey, stored, inside⟩⟩

/-- Rows that are the same as far as they have a list instance of the key have the same owner. -/
theorem Owns.congr {others : ByName Fields} {owner : Option String} (owns : table.Owns rows key owner)
    (same : ∀ rowKey, key ∈ table.instanceKeys rowKey →
      others[table.storeKey rowKey]? = rows[table.storeKey rowKey]?) :
    table.Owns others key owner := by
  cases owner with
  | none =>
      intro rowKey stored inside
      rw [Stores, same rowKey inside] at stored
      exact owns rowKey stored inside
  | some rowKey =>
      refine ⟨?_, owns.2⟩
      rw [Stores, same rowKey owns.2]
      exact owns.1

section Change

variable {others : ByName Fields} {owner : Option String}
  (elsewhere : ∀ other, other ≠ rowKey →
    others[table.storeKey other]? = rows[table.storeKey other]?)

include elsewhere

/-- A row with a list instance of a key changes only if it is the owner or there is none. -/
theorem Owns.eq_or_none (owns : table.Owns rows key owner) (apart : table.StandsApart rows)
    (apartAfter : table.StandsApart others) (inside : key ∈ table.instanceKeys rowKey)
    (there : table.Stores rows rowKey ∨ table.Stores others rowKey) :
    owner = none ∨ owner = some rowKey := by
  cases owner with
  | none => exact Or.inl rfl
  | some other =>
      right
      by_contra different
      have apartKey : other ≠ rowKey := fun same => different (congrArg some same)
      rcases there with before | after
      · exact apartKey (apart.apart _ _ key owns.1 before owns.2 inside)
      · have storedAfter : table.Stores others other := by
          rw [Stores, elsewhere other apartKey]
          exact owns.1
        exact apartKey (apartAfter.apart _ _ key storedAfter after owns.2 inside)

/-- A row with a list instance of a key owns it once it is changed, unless it is gone. -/
theorem Owns.changed (owns : table.Owns rows key owner) (apart : table.StandsApart rows)
    (own : owner = none ∨ owner = some rowKey) (inside : key ∈ table.instanceKeys rowKey) :
    table.Owns others key
      (if others[table.storeKey rowKey]?.isSome then some rowKey else none) := by
  by_cases stored : others[table.storeKey rowKey]?.isSome
  · rw [if_pos stored]
    exact ⟨stored, inside⟩
  · rw [if_neg stored]
    intro other storedOther also
    have apartKey : other ≠ rowKey := fun same => stored (same ▸ storedOther)
    rw [Stores, elsewhere other apartKey] at storedOther
    rcases own with rfl | rfl
    · exact owns other storedOther also
    · exact apartKey (apart.apart _ _ key storedOther owns.1 also owns.2)

end Change

/-- The list instances of a key in a document that is built are those of its owner. -/
theorem StandsApart.ofKey_rowsNodes (apart : table.StandsApart rows) {nodes : Forest Unit}
    (translated : table.rowsNodes (Store.tableRows table rows) = .ok nodes) {owner : Option String}
    (owns : table.Owns rows key owner) :
    (nodes.ofKey key).length =
        (owner.map fun rowKey => (table.instanceKeys rowKey).count key).getD 0 ∧
      table.readAt nodes key =
        owner.bind fun rowKey => rows[table.storeKey rowKey]?.map table.settled := by
  cases owner with
  | none =>
      have nothing : nodes.ofKey key = [] := by
        rw [(TableSchema.ofKey_rowsNodes translated key).2]
        refine List.flatMap_eq_nil_iff.mpr fun row member => instancesAt_eq_nil_iff.mpr ?_
        refine owns row.1 ?_
        have stored := Std.ExtTreeMap.mem_toList_iff_getElem?_eq_some.mp member
        rw [Store.getElem?_tableRows] at stored
        rw [Stores, stored]
        rfl
      rw [readAt, nothing]
      exact ⟨rfl, rfl⟩
  | some rowKey =>
      have others : ∀ other : String, (Store.tableRows table rows)[other]?.isSome →
          key ∈ table.instanceKeys other → other = rowKey := by
        intro other stored inside
        rw [Store.getElem?_tableRows] at stored
        exact apart.apart other rowKey key stored owns.1 inside owns.2
      have own := ofKey_rowsNodes_of_own translated others
      obtain ⟨fields, stored⟩ := Option.isSome_iff_exists.mp owns.1
      refine ⟨?_, ?_⟩
      · rw [own, Store.getElem?_tableRows, stored, Option.toList_some, List.flatMap_singleton,
          length_instancesAt]
        rfl
      · rw [readAt_rowsNodes translated owns.2 others, Store.getElem?_tableRows]
        rfl

end TableSchema

/-- The row that has its list instances once a change of a row is handled. -/
def ownerAfter (change : String × ChangeKind) : Option String :=
  match change.2 with
  | .rowDeleted => none
  | .fieldsSet | .fieldsDeleted => some change.1

/-- Whether changes lead from one owner of a list instance to another, each of them being of a row that
owns it before or afterwards. -/
def LeadsTo : Option String → List (String × ChangeKind) → Option String → Prop
  | content, [], owner => content = owner
  | content, change :: changes, owner =>
    (content = none ∨ content = some change.1) ∧ LeadsTo (ownerAfter change) changes owner

private theorem LeadsTo.append {content middle owner : Option String}
    {changes more : List (String × ChangeKind)}
    (first : LeadsTo content changes middle) (second : LeadsTo middle more owner) :
    LeadsTo content (changes ++ more) owner := by
  induction changes generalizing content with
  | nil => exact (show content = middle from first) ▸ second
  | cons change changes ih => exact ⟨first.1, ih first.2⟩

namespace StoreWrite

/-- The row of a write that is announced is stored before or afterwards. -/
theorem isSome_of_kinds {write : StoreWrite} {store : Store} (announced : write.kinds store ≠ []) :
    store.rows[write.key]?.isSome ∨ (write.apply store).rows[write.key]?.isSome := by
  cases write with
  | setFields key fields =>
      right
      change ((store.rows.alter key _)[key]?).isSome
      rw [ByName.getElem?_alter, if_pos rfl]
      rfl
  | deleteRow key =>
      left
      by_contra absent
      refine announced (if_neg ?_)
      rwa [Std.ExtTreeMap.mem_iff_isSome_getElem?]
  | deleteField key field =>
      left
      cases found : store.get? key with
      | none => simp [kinds, found] at announced
      | some stored =>
          have held : store.rows[key]? = some stored := found
          rw [StoreWrite.key, held]
          rfl

/-- What a write announces of its row leads from the row, or from none, to the row if it is stored then,
and else to none. -/
theorem leadsTo_kinds {write : StoreWrite} {store : Store} (announced : write.kinds store ≠ [])
    {rowKey : String} {content : Option String} (own : content = none ∨ content = some rowKey) :
    LeadsTo content ((write.kinds store).map fun kind => (rowKey, kind))
      (if (write.apply store).rows[write.key]?.isSome then some rowKey else none) := by
  cases write with
  | setFields key fields =>
      refine ⟨own, ?_⟩
      change some rowKey = if ((store.rows.alter key _)[key]?).isSome then some rowKey else none
      rw [ByName.getElem?_alter, if_pos rfl]
      rfl
  | deleteRow key =>
      by_cases stored : key ∈ store.rows
      · have kinds : (deleteRow key).kinds store = [.rowDeleted] := if_pos stored
        have gone : ((deleteRow key).apply store).rows[key]? = none := by
          simp [apply, Store.deleteRow, stored, Store.publish_eq]
        rw [kinds, StoreWrite.key, gone]
        exact ⟨own, rfl⟩
      · exact absurd (if_neg stored) announced
  | deleteField key field =>
      cases found : store.get? key with
      | none => simp [kinds, found] at announced
      | some stored =>
          by_cases emptied : (stored.erase field).isEmpty = true
          · have gone : ((deleteField key field).apply store).rows[key]? = none := by
              by_cases removed : stored.contains field = true <;>
                simp [apply, Store.deleteField, found, emptied, removed, Store.publish_eq]
            rw [StoreWrite.key, gone]
            by_cases removed : stored.contains field = true
            · have kinds : (deleteField key field).kinds store = [.fieldsDeleted, .rowDeleted] := by
                simp only [kinds, found, removed, emptied, ↓reduceIte]
                rfl
              rw [kinds]
              exact ⟨own, Or.inr rfl, rfl⟩
            · have kinds : (deleteField key field).kinds store = [.rowDeleted] := by
                simp only [kinds, found, removed, emptied, ↓reduceIte]
                rfl
              rw [kinds]
              exact ⟨own, rfl⟩
          · have kept : ((deleteField key field).apply store).rows[key]?.isSome := by
              by_cases removed : stored.contains field = true <;>
                simp [apply, Store.deleteField, found, emptied, removed, Store.publish_eq]
            rw [StoreWrite.key, if_pos kept]
            by_cases removed : stored.contains field = true
            · have kinds : (deleteField key field).kinds store = [.fieldsDeleted] := by
                simp only [kinds, found, removed, emptied, ↓reduceIte]
                rfl
              rw [kinds]
              exact ⟨own, rfl⟩
            · simp [kinds, found, removed, emptied] at announced

end StoreWrite

namespace TableSchema

variable {table : TableSchema} {rows : ByName Fields} {nodes : Forest Unit} {key rowKey : String}
  {queue : List (String × ChangeKind)}

/-- The changes of rows with a list instance of a key. -/
def changesAt (table : TableSchema) (key : String) (queue : List (String × ChangeKind)) :
    List (String × ChangeKind) :=
  queue.filter fun change => key ∈ table.instanceKeys change.1

private theorem changesAt_append (table : TableSchema) (key rowKey : String)
    (queue : List (String × ChangeKind)) (kinds : List ChangeKind) :
    table.changesAt key (queue ++ kinds.map fun kind => (rowKey, kind)) =
      table.changesAt key queue ++
        if key ∈ table.instanceKeys rowKey then kinds.map fun kind => (rowKey, kind) else [] := by
  unfold changesAt
  rw [List.filter_append, List.filter_map]
  by_cases inside : key ∈ table.instanceKeys rowKey <;> simp [inside, Function.comp_def]

/-- Whether the list instances of a key belong to one row at most, from which the changes that wait lead
to the stored one, and are read back as that row once no change waits. -/
structure CatchesUpFrom (table : TableSchema) (rows : ByName Fields) (nodes : Forest Unit)
    (queue : List (String × ChangeKind)) (key : String) (content owner : Option String) : Prop where
  owns : table.Owns rows key owner
  leads : LeadsTo content (table.changesAt key queue) owner
  bounded : (nodes.ofKey key).length ≤
    (content.map fun rowKey => (table.instanceKeys rowKey).count key).getD 0
  current : table.changesAt key queue = [] →
    table.readAt nodes key =
      owner.bind fun rowKey => rows[table.storeKey rowKey]?.map table.settled

/-- Whether the changes that wait bring the list instances of a key up to date. -/
def CatchesUp (table : TableSchema) (rows : ByName Fields) (nodes : Forest Unit)
    (queue : List (String × ChangeKind)) (key : String) : Prop :=
  ∃ content owner, table.CatchesUpFrom rows nodes queue key content owner

/-- A document that is built is up to date. -/
theorem StandsApart.catchesUp (apart : table.StandsApart rows)
    (translated : table.rowsNodes (Store.tableRows table rows) = .ok nodes) (key : String) :
    table.CatchesUp rows nodes [] key := by
  obtain ⟨owner, owns⟩ := table.exists_owner rows key
  obtain ⟨length, read⟩ := apart.ofKey_rowsNodes translated owns
  exact ⟨owner, owner, owns, rfl, length.le, fun _ => read⟩

/-- Catching up depends on the rows, the list instances and the changes of the key. -/
theorem CatchesUp.congr {others : ByName Fields} {later : Forest Unit}
    {more : List (String × ChangeKind)} (catches : table.CatchesUp rows nodes queue key)
    (sameRows : ∀ rowKey, key ∈ table.instanceKeys rowKey →
      others[table.storeKey rowKey]? = rows[table.storeKey rowKey]?)
    (sameNodes : later.ofKey key = nodes.ofKey key)
    (sameChanges : table.changesAt key more = table.changesAt key queue) :
    table.CatchesUp others later more key := by
  obtain ⟨content, owner, owns, leads, bounded, current⟩ := catches
  refine ⟨content, owner, owns.congr sameRows, sameChanges ▸ leads, sameNodes ▸ bounded,
    fun none => ?_⟩
  rw [readAt, sameNodes, ← readAt, current (sameChanges ▸ none)]
  cases owner with
  | none => rfl
  | some rowKey => rw [Option.bind_some, Option.bind_some, sameRows rowKey owns.2]

/-- A write leaves the list instances of a key to be brought up to date by the changes that wait and
those that it announces. -/
theorem CatchesUp.write {store : Store} (catches : table.CatchesUp store.rows nodes queue key)
    {write : StoreWrite} (apart : table.StandsApart store.rows)
    (apartAfter : table.StandsApart (write.apply store).rows)
    (own : write.key = table.storeKey rowKey) :
    table.CatchesUp (write.apply store).rows nodes
      (queue ++ (write.kinds store).map fun kind => (rowKey, kind)) key := by
  have added := table.changesAt_append key rowKey queue (write.kinds store)
  have elsewhere : ∀ other, other ≠ rowKey → (write.apply store).rows[table.storeKey other]? =
      store.rows[table.storeKey other]? := by
    intro other different
    refine write.getElem?_apply_of_ne store fun same => different ?_
    rw [own] at same
    exact ((String.append_right_inj _).mp same).symm
  by_cases inside : key ∈ table.instanceKeys rowKey
  · rw [if_pos inside] at added
    by_cases silent : write.kinds store = []
    · rw [silent, List.map_nil, List.append_nil] at added ⊢
      refine catches.congr (fun other _ => ?_) rfl rfl
      by_cases self : other = rowKey
      · by_contra changed
        rw [self, ← own] at changed
        exact StoreWrite.kinds_ne_nil changed silent
      · exact elsewhere other self
    · obtain ⟨content, owner, owns, leads, bounded, _⟩ := catches
      have there := StoreWrite.isSome_of_kinds silent
      rw [own] at there
      have fromOwn := owns.eq_or_none elsewhere apart apartAfter inside there
      refine ⟨content, _, owns.changed elsewhere apart fromOwn inside, ?_, bounded, fun none => ?_⟩
      · rw [added, ← own]
        exact leads.append (StoreWrite.leadsTo_kinds silent fromOwn)
      · rw [added] at none
        exact absurd (List.map_eq_nil_iff.mp (List.append_eq_nil_iff.mp none).2) silent
  · rw [if_neg inside, List.append_nil] at added
    exact catches.congr (fun other also => elsewhere other fun same => inside (same ▸ also)) rfl added

/-- What the store holds for a change: nothing if the row was removed. -/
def heldFor (table : TableSchema) (rows : ByName Fields) (change : String × ChangeKind) :
    Option Fields :=
  match change.2 with
  | .rowDeleted => none
  | .fieldsSet | .fieldsDeleted => rows[table.storeKey change.1]?

private theorem ownerAfter_of_heldFor {change : String × ChangeKind} {fields : Fields}
    (held : table.heldFor rows change = some fields) :
    ownerAfter change = some change.1 ∧ rows[table.storeKey change.1]? = some fields := by
  obtain ⟨changed, kind⟩ := change
  cases kind with
  | fieldsSet => exact ⟨rfl, held⟩
  | fieldsDeleted => exact ⟨rfl, held⟩
  | rowDeleted => cases held

private theorem ownerAfter_of_heldFor_eq_none {change : String × ChangeKind}
    (held : table.heldFor rows change = none) :
    ownerAfter change = none ∨
      ownerAfter change = some change.1 ∧ rows[table.storeKey change.1]? = none := by
  obtain ⟨changed, kind⟩ := change
  cases kind with
  | fieldsSet => exact Or.inr ⟨rfl, held⟩
  | fieldsDeleted => exact Or.inr ⟨rfl, held⟩
  | rowDeleted => exact Or.inl rfl

/-- Handling the oldest change leaves the list instances of a key to be brought up to date by the changes
behind it. -/
theorem CatchesUp.handle {change : String × ChangeKind}
    (catches : table.CatchesUp rows nodes (change :: queue) key) (sound : table.IsSound)
    (plain : table.MergesPlainly change.1) {later : Forest Unit}
    (renewed : later.ofKey key =
      ((table.heldFor rows change).toList.flatMap fun fields =>
        table.instancesAt key change.1 fields).foldl Forest.joinFirst
          ((nodes.ofKey key).drop ((table.instanceKeys change.1).count key))) :
    table.CatchesUp rows later queue key := by
  by_cases inside : key ∈ table.instanceKeys change.1
  · obtain ⟨content, owner, owns, leads, bounded, _⟩ := catches
    have first : table.changesAt key (change :: queue) = change :: table.changesAt key queue :=
      List.filter_cons_of_pos (decide_eq_true inside)
    rw [first] at leads
    obtain ⟨own, leads⟩ := leads
    have taken : (nodes.ofKey key).drop ((table.instanceKeys change.1).count key) = [] := by
      refine List.drop_eq_nil_of_le (bounded.trans ?_)
      rcases own with rfl | rfl
      · exact Nat.zero_le _
      · exact le_rfl
    rw [taken] at renewed
    cases held : table.heldFor rows change with
    | none =>
        rw [held] at renewed
        have empty : later.ofKey key = [] := renewed
        refine ⟨_, owner, owns, leads, by rw [empty]; exact Nat.zero_le _, fun none => ?_⟩
        rw [none] at leads
        cases (leads : ownerAfter change = owner)
        rw [readAt, empty]
        rcases ownerAfter_of_heldFor_eq_none held with gone | ⟨after, absent⟩
        · rw [gone]
          rfl
        · rw [after] at owns
          have stored := owns.1
          rw [Stores, absent] at stored
          cases stored
    | some fields =>
        obtain ⟨after, stored⟩ := ownerAfter_of_heldFor held
        obtain ⟨node, joined, read⟩ := foldl_joinFirst_instancesAt sound plain inside fields
        rw [held, Option.toList_some, List.flatMap_singleton, joined] at renewed
        rw [after] at leads
        refine ⟨some change.1, owner, owns, leads, ?_, fun none => ?_⟩
        · rw [renewed]
          exact List.count_pos_iff.mpr inside
        · rw [none] at leads
          cases (leads : some change.1 = owner)
          rw [readAt, renewed, Option.bind_some, stored]
          exact congrArg some read
  · have nothing : ((table.heldFor rows change).toList.flatMap fun fields =>
        table.instancesAt key change.1 fields) = [] :=
      List.flatMap_eq_nil_iff.mpr fun fields _ => instancesAt_eq_nil_iff.mpr inside
    rw [nothing, List.count_eq_zero.mpr inside] at renewed
    exact catches.congr (fun _ _ => rfl) renewed
      (List.filter_cons_of_neg (by simpa using inside)).symm

end TableSchema

end ConfigVetting
