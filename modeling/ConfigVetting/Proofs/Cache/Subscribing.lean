import ConfigVetting.Cache.Interleaving
import ConfigVetting.Proofs.Store.Channels
import ConfigVetting.Proofs.World.StoredRows

/-! # What a subscription receives

A write is announced on the channel of its key once or twice if it changes the row, and each
subscription whose patterns cover the channel receives the announcements in order
(`ConfigVetting.StoreWrite.apply_eq`). The channels of a table cover the keys of its rows. The
subscriptions of a store have different numbers, so what the listener does with its own one leaves the
others.
-/

namespace ConfigVetting

namespace Channel

/-- The pattern for the keys of a table covers the channel of each of them. -/
theorem covered_ofTable (database : Nat) {table : TableSchema} {key rowKey : String}
    (own : table.rowKey? key = some rowKey) :
    covered (ofTable database table.name table.keyDelimiter) (ofKey database key) = true :=
  covered_ofTable_iff.mpr ⟨rfl, rowKey, TableSchema.rowKey?_eq_some_iff.mp own⟩

end Channel

/-- A subscription with changes of a key received, if its patterns cover the channel of the key. -/
def Subscriber.hear (database : Nat) (key : String) (kinds : List ChangeKind)
    (subscriber : Subscriber) : Subscriber :=
  if subscriber.patterns.any fun pattern => Channel.covered pattern (Channel.ofKey database key) then
    { subscriber with
      pending := subscriber.pending ++ kinds.map (Notification.ofKey database key) }
  else subscriber

namespace Subscriber

private theorem hear_nil (database : Nat) (key : String) (subscriber : Subscriber) :
    subscriber.hear database key [] = subscriber := by
  unfold hear
  split <;> simp

private theorem hear_hear (database : Nat) (key : String) (first second : List ChangeKind)
    (subscriber : Subscriber) :
    (subscriber.hear database key first).hear database key second =
      subscriber.hear database key (first ++ second) := by
  unfold hear
  split <;> simp_all

end Subscriber

/-- Every subscriber hears of a change that is published. -/
theorem Store.publish_eq (store : Store) (key : String) (kind : ChangeKind) :
    store.publish key kind =
      { store with subscribers := store.subscribers.map (.hear store.database key [kind]) } := rfl

namespace StoreWrite

/-- What a write announces of its key. -/
def kinds (store : Store) : StoreWrite → List ChangeKind
  | setFields _ _ => [.fieldsSet]
  | deleteField key field =>
    match store.get? key with
    | none => []
    | some stored =>
      (if stored.contains field then [.fieldsDeleted] else []) ++
        if (stored.erase field).isEmpty then [.rowDeleted] else []
  | deleteRow key => if key ∈ store.rows then [.rowDeleted] else []

/-- A write changes the stored rows, and each subscription hears of it. -/
theorem apply_eq (write : StoreWrite) (store : Store) :
    write.apply store = { store with
      rows := (write.apply store).rows
      subscribers := store.subscribers.map
        (Subscriber.hear store.database write.key (write.kinds store)) } := by
  have unheard : ∀ key, store.subscribers.map (Subscriber.hear store.database key []) =
      store.subscribers := fun key => by
    simp [Subscriber.hear_nil, List.map_id'']
  cases write with
  | setFields key fields => rfl
  | deleteRow key =>
      unfold apply Store.deleteRow kinds StoreWrite.key
      by_cases stored : key ∈ store.rows
      · simp only [stored, ↓reduceIte]
        rfl
      · simp only [stored, ↓reduceIte, unheard]
  | deleteField key field =>
      unfold apply Store.deleteField kinds StoreWrite.key
      cases found : store.get? key with
      | none => simp only [found, unheard]
      | some stored =>
          simp only [found]
          by_cases removed : stored.contains field = true
          · by_cases emptied : (stored.erase field).isEmpty = true
            · simp only [removed, emptied, ↓reduceIte, Store.publish_eq, List.map_map,
                List.singleton_append]
              congr 2
              exact funext fun subscriber => subscriber.hear_hear _ _ [.fieldsDeleted] [.rowDeleted]
            · simp only [removed, emptied, ↓reduceIte, Store.publish_eq, List.append_nil,
                Bool.false_eq_true]
          · by_cases emptied : (stored.erase field).isEmpty = true
            · simp only [removed, emptied, ↓reduceIte, Store.publish_eq, List.nil_append,
                Bool.false_eq_true]
            · simp only [removed, emptied, ↓reduceIte, List.append_nil, Bool.false_eq_true, unheard]

/-- A write leaves the rows of other keys. -/
theorem getElem?_apply_of_ne (write : StoreWrite) (store : Store) {key : String}
    (other : write.key ≠ key) : (write.apply store).rows[key]? = store.rows[key]? := by
  cases write with
  | setFields own fields =>
      exact (ByName.getElem?_alter _ _ _ _).trans (if_neg other)
  | deleteRow own =>
      simp only [apply, Store.deleteRow]
      split
      · simp only [Store.publish_eq, Std.ExtTreeMap.getElem?_erase, Std.LawfulEqCmp.compare_eq_iff_eq]
        exact if_neg other
      · rfl
  | deleteField own field =>
      simp only [apply, Store.deleteField]
      cases store.get? own with
      | none => rfl
      | some stored =>
          by_cases emptied : (stored.erase field).isEmpty = true
          · by_cases removed : stored.contains field = true <;>
              simp only [emptied, removed, ↓reduceIte, Store.publish_eq, Std.ExtTreeMap.getElem?_erase,
                Std.LawfulEqCmp.compare_eq_iff_eq, Bool.false_eq_true] <;> exact if_neg other
          · by_cases removed : stored.contains field = true <;>
              simp only [emptied, removed, ↓reduceIte, Store.publish_eq, ByName.getElem?_insert,
                Bool.false_eq_true] <;> exact if_neg other

/-- A write that changes the row of its key announces it. -/
theorem kinds_ne_nil {write : StoreWrite} {store : Store}
    (changed : (write.apply store).get? write.key ≠ store.get? write.key) :
    write.kinds store ≠ [] := by
  cases write with
  | setFields key fields => exact List.cons_ne_nil _ _
  | deleteRow key =>
      simp only [kinds, apply, Store.deleteRow] at changed ⊢
      by_cases stored : key ∈ store.rows
      · simp [stored]
      · simp [stored] at changed
  | deleteField key field =>
      simp only [kinds, apply, Store.deleteField, StoreWrite.key] at changed ⊢
      cases found : store.get? key with
      | none => simp [found] at changed
      | some stored =>
          simp only [found] at changed ⊢
          intro silent
          obtain ⟨kept, filled⟩ := List.append_eq_nil_iff.mp silent
          have absent : field ∉ stored := by simpa using kept
          have same : stored.erase field = stored := by
            refine Std.ExtTreeMap.ext_getElem? fun name => ?_
            rw [Std.ExtTreeMap.getElem?_erase]
            split
            next equal =>
              cases Std.LawfulEqCmp.compare_eq_iff_eq.mp equal
              exact (Std.ExtTreeMap.getElem?_eq_none absent).symm
            next => rfl
          have filled : stored ≠ ∅ := by simpa [same] using filled
          refine changed ?_
          simp [absent, filled, same, Store.get?]

end StoreWrite

/-- Whether the subscriptions of a store have different numbers, and less than the next one. -/
structure Store.IsNumbered (store : Store) : Prop where
  fresh : ∀ subscriber ∈ store.subscribers, subscriber.id < store.subscriptions
  apart : (store.subscribers.map Subscriber.id).Nodup

namespace Store.IsNumbered

variable {store : Store}

private theorem filter_eq (numbered : store.IsNumbered) (id : Nat) :
    (store.subscribers.filter fun subscriber => subscriber.id = id) =
      (store.subscribers.find? fun subscriber => subscriber.id = id).toList := by
  have apart := numbered.apart
  generalize store.subscribers = subscribers at apart
  induction subscribers with
  | nil => rfl
  | cons subscriber others ih =>
      rw [List.map_cons, List.nodup_cons] at apart
      by_cases own : subscriber.id = id
      · rw [List.filter_cons_of_pos (by simpa using own), List.find?_cons_of_pos (by simpa using own)]
        have none : (others.filter fun other => other.id = id) = [] :=
          List.filter_eq_nil_iff.mpr fun other member same => apart.1 (by
            rw [own, ← of_decide_eq_true same]
            exact List.mem_map_of_mem member)
        rw [none]
        rfl
      · rw [List.filter_cons_of_neg (by simpa using own), List.find?_cons_of_neg (by simpa using own),
          ih apart.2]

/-- Changing subscriptions without changing their numbers. -/
theorem map (numbered : store.IsNumbered) {later : Store} {change : Subscriber → Subscriber}
    (keeps : ∀ subscriber, (change subscriber).id = subscriber.id)
    (subscribers : later.subscribers = store.subscribers.map change)
    (subscriptions : later.subscriptions = store.subscriptions) : later.IsNumbered where
  fresh subscriber member := by
    rw [subscribers] at member
    obtain ⟨before, held, rfl⟩ := List.mem_map.mp member
    rw [keeps, subscriptions]
    exact numbered.fresh before held
  apart := by
    have same : Subscriber.id ∘ change = Subscriber.id := funext keeps
    rw [subscribers, List.map_map, same]
    exact numbered.apart

/-- The numbers of the subscriptions that are left stay apart. -/
theorem cancel (numbered : store.IsNumbered) (id : Nat) : (store.cancel id).IsNumbered where
  fresh subscriber member := numbered.fresh subscriber (List.mem_filter.mp member).1
  apart := numbered.apart.sublist (List.filter_sublist.map _)

/-- A subscription gets a number that no other one has. -/
theorem push (numbered : store.IsNumbered) (patterns : List String) :
    Store.IsNumbered { store with
      subscribers := store.subscribers ++ [{ id := store.subscriptions, patterns }]
      subscriptions := store.subscriptions + 1 } where
  fresh subscriber member := by
    rcases List.mem_append.mp member with before | own
    · exact Nat.lt_succ_of_lt (numbered.fresh subscriber before)
    · rw [List.mem_singleton.mp own]
      exact Nat.lt_succ_self _
  apart := by
    rw [List.map_append, List.nodup_append]
    refine ⟨numbered.apart, List.pairwise_singleton _ _, ?_⟩
    intro id before other own
    obtain ⟨subscriber, held, rfl⟩ := List.mem_map.mp before
    cases List.mem_singleton.mp own
    exact Nat.ne_of_lt (numbered.fresh subscriber held)

/-- A subscription is found by the number it was given. -/
theorem find?_push (numbered : store.IsNumbered) (patterns : List String) :
    ((store.subscribers ++ [{ id := store.subscriptions, patterns : Subscriber }]).find?
      fun subscriber => subscriber.id = store.subscriptions) =
        some { id := store.subscriptions, patterns } := by
  rw [List.find?_append, List.find?_eq_none.mpr fun subscriber member same =>
    Nat.ne_of_lt (numbered.fresh subscriber member) (of_decide_eq_true same)]
  simp

end Store.IsNumbered

theorem Subscriber.id_hear (database : Nat) (key : String) (kinds : List ChangeKind)
    (subscriber : Subscriber) : (subscriber.hear database key kinds).id = subscriber.id := by
  unfold hear
  split <;> rfl

namespace World

/-- The subscription depends on the subscribers and the number that the listener keeps. -/
theorem subscriber?_congr {before after : World}
    (listener : after.cache.listener.subscription = before.cache.listener.subscription)
    (subscribers : after.store.subscribers = before.store.subscribers) :
    after.subscriber? = before.subscriber? := by
  unfold subscriber?
  rw [listener, subscribers]

/-- A change of the subscriptions without changing their numbers changes that of the listener. -/
theorem subscriber?_map {before after : World} {change : Subscriber → Subscriber}
    (keeps : ∀ subscriber, (change subscriber).id = subscriber.id)
    (listener : after.cache.listener.subscription = before.cache.listener.subscription)
    (subscribers : after.store.subscribers = before.store.subscribers.map change) :
    after.subscriber? = before.subscriber?.map change := by
  unfold subscriber?
  rw [listener, subscribers]
  cases before.cache.listener.subscription with
  | none => rfl
  | some id =>
      simp only [Option.bind_some, List.find?_map, Function.comp_def, keeps]

/-- What the listener has still to handle is what waits for its subscription. -/
theorem pending_eq {world : World} (numbered : world.store.IsNumbered) :
    Listener.pending world = (world.subscriber?.map Subscriber.pending).getD [] := by
  unfold Listener.pending subscriber?
  cases world.cache.listener.subscription with
  | none => rfl
  | some id =>
      simp only [Option.bind_some, Store.drain, numbered.filter_eq]
      cases world.store.subscribers.find? fun subscriber => subscriber.id = id with
      | none => rfl
      | some subscriber => exact List.flatMap_singleton ..

end World

end ConfigVetting
