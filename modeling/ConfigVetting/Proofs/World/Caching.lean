import ConfigVetting.Proofs.Document.Changes
import ConfigVetting.Proofs.World.Reading

/-! # Reading from the cache

Reading the document of a table counts a use, and builds the document anew from the stored rows if it
is not there or expired. What it answers is the document that the cache holds afterwards
(`ConfigVetting.Cache.document?_of_read`).
-/

namespace ConfigVetting.Cache

open WorldM

variable {setting : Setting}

/-- Putting a document in changes the entry of its table alone. -/
theorem getElem?_entries_putDocument (cache : Cache) (name other : String)
    (document : Option Document) :
    (cache.putDocument name document).entries[other]? =
      if name = other then cache.entries[other]?.map fun entry => { entry with document }
      else cache.entries[other]? := by
  unfold putDocument
  rw [Std.ExtTreeMap.getElem?_modify]
  simp only [Std.LawfulEqCmp.compare_eq_iff_eq]
  by_cases same : name = other <;> simp [same]

/-- The documents after one was put in for a registered table. -/
theorem document?_putDocument (cache : Cache) (name other : String) (document : Option Document) :
    (cache.putDocument name document).document? other =
      if name = other ∧ other ∈ cache.entries then document else cache.document? other := by
  unfold document?
  simp only [getElem?_entries_putDocument, Std.ExtTreeMap.mem_iff_isSome_getElem?]
  by_cases own : name = other
  · cases stored : cache.entries[other]? <;> simp [own]
  · simp [own]

theorem isReading_build (setting : Setting) (name : String) :
    (build setting name).IsReading setting :=
  (IsReading.except _).bind fun table =>
    (IsReading.askStore (Store.isRead_fetchTable table setting.batchSize)).bind fun _ =>
      (IsReading.except _).bind fun _ => (IsReading.note _ _).bind fun _ => IsReading.pure _

/-- A document that is built is that of the table as the store holds it. -/
theorem isBuilt_of_build {name : String} {document : Document} {world later : World}
    (built : (build setting name).outcome world = (.ok document, later)) :
    IsBuilt setting world.store.rows name document := by
  obtain ⟨table, first, known, asked⟩ := outcome_bind_eq_ok_iff.mp built
  obtain ⟨rows, second, fetched, translated⟩ := outcome_bind_eq_ok_iff.mp asked
  obtain ⟨same, third, made, noted⟩ := outcome_bind_eq_ok_iff.mp translated
  obtain ⟨_, _, _, answered⟩ := outcome_bind_eq_ok_iff.mp noted
  cases answered
  obtain ⟨found, rfl⟩ := outcome_except_eq_ok_iff.mp known
  obtain ⟨whole, _⟩ := outcome_except_eq_ok_iff.mp made
  cases World.eq_of_outcome_askStore (Store.isRead_fetchTable table setting.batchSize) fetched
  exact ⟨table, Schema.knownTable_eq_ok_iff.mp found, whole⟩

/-- Putting in a document just built for an entry that was outdated is reading. -/
theorem onlyRead_putBuilt {name : String} {document : Document} {entry : CacheEntry}
    {world middle : World} (read : world.OnlyRead setting middle)
    (registered : world.cache.entries[name]? = some entry)
    (outdated : entry.isExpired world.clock ∨ entry.document = none)
    (built : IsBuilt setting world.store.rows name document) :
    world.OnlyRead setting
      (World.run (putBuilt name document entry.expirySecs) middle).2 where
  rows := read.rows
  available := read.available
  clock := read.clock
  folds := read.folds
  entries other := by
    by_cases same : name = other
    · subst same
      right
      refine ⟨entry, _, registered, Std.ExtTreeMap.getElem?_insert_self, outdated, document, built, ?_⟩
      rw [read.clock]
    · have kept : (World.run (putBuilt name document entry.expirySecs) middle).2.cache.entries[other]? =
          middle.cache.entries[other]? := by
        change (middle.cache.entries.insert name _)[other]? = _
        rw [Std.ExtTreeMap.getElem?_insert]
        simp [same]
      rw [kept]
      exact read.entries other

/-- The document of an entry, unless it is too old. -/
def currentDocument (entry : CacheEntry) (now : Int) : Option Document :=
  if entry.isExpired now then none else entry.document

private theorem outdated_of_currentDocument {entry : CacheEntry} {now : Int}
    (none : currentDocument entry now = none) : entry.isExpired now ∨ entry.document = .none := by
  unfold currentDocument at none
  by_cases expired : entry.isExpired now
  · exact Or.inl expired
  · rw [if_neg expired] at none
    exact Or.inr none

/-- Reading the document of a table that is not registered. -/
theorem outcome_read_of_unregistered {name : String} {world : World}
    (unregistered : world.cache.entries[name]? = none) :
    (read setting name).outcome world = (.ok none, world) := by
  unfold read
  rw [outcome_bind, outcome_get]
  simp only [unregistered, outcome_pure]

/-- Reading a document that is there and current. -/
theorem outcome_read_of_current {name : String} {world : World} {entry : CacheEntry}
    {document : Document} (registered : world.cache.entries[name]? = some entry)
    (current : currentDocument entry world.clock = some document) :
    (read setting name).outcome world = (.ok (some document),
      { world with cache.stats.hits := world.cache.stats.hits + 1 }) := by
  unfold read
  unfold currentDocument at current
  rw [outcome_bind, outcome_get]
  simp only [registered, current]
  rfl

/-- The world with a miss of a table counted and noted. -/
def missed (name : String) (world : World) : World :=
  { world with
    cache.stats.misses := world.cache.stats.misses + 1
    journal := world.journal ++ [⟨.cacheMiss, [("table", name)]⟩] }

/-- Reading a document that is outdated builds it, after the miss is counted and noted. -/
theorem outcome_read_of_outdated {name : String} {world : World} {entry : CacheEntry}
    (registered : world.cache.entries[name]? = some entry)
    (outdated : currentDocument entry world.clock = none) :
    (read setting name).outcome world =
      (do
        let document ← build setting name
        putBuilt name document entry.expirySecs
        return some document : WorldM (Option Document)).outcome (missed name world) := by
  unfold read
  unfold currentDocument at outdated
  rw [outcome_bind, outcome_get]
  simp only [registered, outdated]
  rw [outcome_bind, outcome_state]
  simp only
  rw [outcome_bind, outcome_state]
  rfl

/-- Reading from the cache only reads, be the document there or built anew. -/
theorem isReading_read (setting : Setting) (name : String) :
    (read setting name).IsReading setting := by
  intro world
  cases registered : world.cache.entries[name]? with
  | none =>
      rw [outcome_read_of_unregistered registered]
      exact World.OnlyRead.refl world
  | some entry =>
      cases current : currentDocument entry world.clock with
      | some document =>
          rw [outcome_read_of_current registered current]
          exact World.OnlyRead.of_eq rfl rfl rfl rfl rfl
      | none =>
          have outdated := outdated_of_currentDocument current
          have counted : world.OnlyRead setting (missed name world) :=
            World.OnlyRead.of_eq rfl rfl rfl rfl rfl
          have building := isReading_build setting name (missed name world)
          rw [outcome_read_of_outdated registered current, outcome_bind]
          rcases split : (build setting name).outcome (missed name world) with ⟨answer, later⟩
          rw [split] at building
          cases answer with
          | error rejection => exact counted.trans building
          | ok document =>
              have built := isBuilt_of_build split
              exact onlyRead_putBuilt (counted.trans building) registered outdated built

/-- What reading the document of a table answers is what the cache holds for it afterwards. -/
theorem document?_of_read {name : String} {answer : Option Document} {world later : World}
    (given : (read setting name).outcome world = (.ok answer, later)) :
    later.cache.document? name = answer := by
  cases registered : world.cache.entries[name]? with
  | none =>
      rw [outcome_read_of_unregistered registered] at given
      cases given
      rw [document?, registered]
      rfl
  | some entry =>
      cases current : currentDocument entry world.clock with
      | some document =>
          rw [outcome_read_of_current registered current] at given
          cases given
          unfold currentDocument at current
          by_cases expired : entry.isExpired world.clock
          · rw [if_pos expired] at current
            cases current
          · rw [if_neg expired] at current
            rw [document?, registered]
            exact current
      | none =>
          rw [outcome_read_of_outdated registered current] at given
          obtain ⟨document, middle, _, rest⟩ := outcome_bind_eq_ok_iff.mp given
          rw [outcome_bind, outcome_state] at rest
          cases rest
          change ((middle.cache.entries.insert name _)[name]?).bind CacheEntry.document = _
          rw [Std.ExtTreeMap.getElem?_insert_self]
          rfl

/-- Reading a document that is as the stored rows hold its table answers that document, be it built anew
or not. -/
theorem eq_of_read_of_isBuilt {name : String} {document : Document} {answer : Option Document}
    {world later : World} (there : world.cache.document? name = some document)
    (built : IsBuilt setting world.store.rows name document)
    (given : (read setting name).outcome world = (.ok answer, later)) : answer = some document := by
  have cached := document?_of_read given
  unfold document? at cached there
  rcases ((isReading_read setting name).onlyRead given).entries name with
    same | ⟨earlier, rebuilt, _, stored, _, again, anew, rfl⟩
  · rw [same] at cached
    exact cached.symm.trans there
  · rw [stored] at cached
    obtain ⟨table, known, made⟩ := built
    obtain ⟨other, otherKnown, madeAgain⟩ := anew
    cases known.symm.trans otherKnown
    cases made.symm.trans madeAgain
    exact cached.symm

/-- Changing the document of a table changes it in place, also if the change is rejected. -/
theorem outcome_changeDocument (name : String) (change : DocumentM Unit) (world : World) :
    (changeDocument name change).outcome world =
      match world.cache.document? name with
      | none => (.ok (), world)
      | some document => ((change.outcome document).1,
          { world with cache := world.cache.putDocument name (some (change.outcome document).2) }) := by
  unfold changeDocument
  rw [outcome_bind, outcome_get]
  cases cached : world.cache.document? name with
  | none =>
      simp only [cached]
      rfl
  | some document =>
      unfold DocumentM.outcome
      simp only [cached]
      rcases StateT.run (m := Id) (ExceptT.run change) document with ⟨answer, later⟩
      cases answer <;> rfl

end ConfigVetting.Cache
