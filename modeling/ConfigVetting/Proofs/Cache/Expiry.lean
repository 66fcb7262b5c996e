import ConfigVetting.Proofs.World.Caching
import Mathlib.Algebra.Group.Nat.Defs

/-! # Limits of age

The document of a table is held up to the age that its entry allows, and for ever if the limit is zero.
The limit is a number of 64 bits without a sign, but it is held against the age as one with a sign: from
`2 ^ 63` on it is negative, and every document is too old for it
(`ConfigVetting.CacheEntry.isExpired_iff`). What follows for reading is
`ConfigVetting.Cache.outcome_read_of_age`.
-/

namespace ConfigVetting

private theorem signed64_eq (value : Nat) : signed64 value = (value : Int).bmod 18446744073709551616 := by
  have modulus : Nat.pow 2 64 = 18446744073709551616 := by decide
  unfold signed64
  rw [modulus, Int.ofNat_eq_natCast]

/-- The lower half of the numbers of 64 bits keep their value with a sign. -/
theorem signed64_of_lt {value : Nat} (lower : value < 2 ^ 63) : signed64 value = value := by
  rw [signed64_eq]
  exact Int.bmod_eq_of_le_mul_two (by omega) (by omega)

/-- The upper half of the numbers of 64 bits are negative with a sign. -/
theorem signed64_neg_of_le {value : Nat} (upper : 2 ^ 63 ≤ value) (range : value < 2 ^ 64) :
    signed64 value < 0 := by
  rw [signed64_eq, Int.bmod_def]
  omega

namespace CacheEntry

/-- Whether an entry has a limit of age and reached it. -/
def HasReachedLimit (entry : CacheEntry) (now : Int) : Prop :=
  0 < entry.expirySecs ∧ (entry.expirySecs : Int) ≤ now - entry.createdAt

/-- Whether the limit of an entry is negative as a number with a sign. -/
def HasNegativeLimit (entry : CacheEntry) : Prop :=
  2 ^ 63 ≤ entry.expirySecs

instance (entry : CacheEntry) (now : Int) : Decidable (entry.HasReachedLimit now) :=
  inferInstanceAs (Decidable (_ ∧ _))

instance (entry : CacheEntry) : Decidable entry.HasNegativeLimit :=
  inferInstanceAs (Decidable (_ ≤ _))

/-- An entry is too old if it reached its limit, and also at any age if its limit is negative. -/
theorem isExpired_iff {entry : CacheEntry} {now : Int} (range : entry.expirySecs < 2 ^ 64)
    (past : entry.createdAt ≤ now) :
    entry.isExpired now ↔ entry.HasReachedLimit now ∨ entry.HasNegativeLimit := by
  unfold isExpired HasReachedLimit HasNegativeLimit
  rw [Bool.and_eq_true, decide_eq_true_iff, decide_eq_true_iff]
  by_cases lower : entry.expirySecs < 2 ^ 63
  · rw [signed64_of_lt lower]
    omega
  · have upper := Nat.le_of_not_lt lower
    have negative := signed64_neg_of_le upper range
    omega

end CacheEntry

namespace Cache

open WorldM

variable {setting : Setting} {name : String} {world : World} {entry : CacheEntry} {document : Document}

private theorem currentDocument_of_not_isExpired {now : Int} (current : ¬ entry.isExpired now) :
    currentDocument entry now = entry.document :=
  if_neg current

private theorem currentDocument_of_isExpired {now : Int} (expired : entry.isExpired now) :
    currentDocument entry now = none :=
  if_pos expired

/-- The document of a table built anew, and put into the cache with the limit it had. -/
def rebuild (setting : Setting) (name : String) (expirySecs : Nat) : WorldM (Option Document) := do
  let document ← build setting name
  putBuilt name document expirySecs
  return some document

/-- A document built anew is as the store holds its table, and is held from now on. -/
theorem exists_isBuilt_of_rebuild {expirySecs : Nat} {answer : Option Document} {later : World}
    (given : (rebuild setting name expirySecs).outcome world = (.ok answer, later)) :
    ∃ built, answer = some built ∧ IsBuilt setting world.store.rows name built ∧
      later.cache.entries[name]? =
        some { document := some built, createdAt := world.clock, expirySecs } := by
  obtain ⟨built, middle, made, rest⟩ := outcome_bind_eq_ok_iff.mp given
  have clock := ((isReading_build setting name).onlyRead made).clock
  rw [outcome_bind, outcome_state] at rest
  cases rest
  refine ⟨built, rfl, isBuilt_of_build made, ?_⟩
  rw [← clock]
  exact Std.ExtTreeMap.getElem?_insert_self

/-- **Reading by age.** Whatever the store is, a document that has not reached its limit is answered as it
is held, and the use is counted; this needs that the limit is not negative as a number with a sign. Every
other document is built anew after the miss is counted, is then as the store holds the table, and is held
with the same limit from now on. -/
theorem outcome_read_of_age (setting : Setting)
    (registered : world.cache.entries[name]? = some entry) (held : entry.document = some document)
    (range : entry.expirySecs < 2 ^ 64) (past : entry.createdAt ≤ world.clock) :
    (¬ (entry.HasReachedLimit world.clock ∨ entry.HasNegativeLimit) → ¬ entry.isExpired world.clock ∧
      ∀ store : Store, (read setting name).outcome { world with store } =
        (.ok (some document),
          { world with store, cache.stats.hits := world.cache.stats.hits + 1 })) ∧
    (entry.HasReachedLimit world.clock ∨ entry.HasNegativeLimit → entry.isExpired world.clock ∧
      (read setting name).outcome world =
        (rebuild setting name entry.expirySecs).outcome (missed name world) ∧
      ∀ answer later, (read setting name).outcome world = (.ok answer, later) →
        ∃ built, answer = some built ∧ IsBuilt setting world.store.rows name built ∧
          later.cache.entries[name]? =
            some { document := some built, createdAt := world.clock, expirySecs := entry.expirySecs }) := by
  have expired_iff := CacheEntry.isExpired_iff range past
  constructor
  · intro young
    have current := mt expired_iff.mp young
    have there := (currentDocument_of_not_isExpired current).trans held
    exact ⟨current, fun store => outcome_read_of_current registered there⟩
  · intro old
    have expired := expired_iff.mpr old
    have rebuilds : (read setting name).outcome world =
        (rebuild setting name entry.expirySecs).outcome (missed name world) :=
      outcome_read_of_outdated registered (currentDocument_of_isExpired expired)
    refine ⟨expired, rebuilds, fun answer later given => ?_⟩
    obtain ⟨built, rfl, asStored, kept⟩ := exists_isBuilt_of_rebuild (rebuilds.symm.trans given)
    exact ⟨built, rfl, asStored, kept⟩

/-- A schema with a table of ports. -/
def portsOnly : Setting where
  schema := Schema.ofModules [{ name := "m", tables := [
    { name := "PORT", keyPattern := "PORT|\x7bname\x7d" }] }]
  database := 0
  batchSize := 100

/-- A world in which the table of ports is held since the time 0, and its store does not answer. -/
def holdingPorts (expirySecs : Nat) (clock : Int) : World where
  store := { database := 0, available := false }
  cache := { entries :=
    (∅ : ByName CacheEntry).insert "PORT" { document := some .empty, createdAt := 0, expirySecs } }
  clock

theorem getElem?_holdingPorts (expirySecs : Nat) (clock : Int) :
    (holdingPorts expirySecs clock).cache.entries["PORT"]? =
      some { document := some .empty, createdAt := 0, expirySecs } :=
  Std.ExtTreeMap.getElem?_insert_self

/-- A limit of 30 seconds is not reached after 29 of them, and is reached after 30. -/
theorem outcome_read_holdingPorts :
    (read portsOnly "PORT").outcome (holdingPorts 30 29) =
        (.ok (some .empty), { holdingPorts 30 29 with cache.stats.hits := 1 }) ∧
      (read portsOnly "PORT").outcome (holdingPorts 30 30) =
        (rebuild portsOnly "PORT" 30).outcome (missed "PORT" (holdingPorts 30 30)) := by
  constructor
  · have young := (outcome_read_of_age portsOnly (getElem?_holdingPorts 30 29) rfl (by decide)
      (by decide)).1
    exact (young (by decide)).2 (holdingPorts 30 29).store
  · have old := (outcome_read_of_age portsOnly (getElem?_holdingPorts 30 30) rfl (by decide)
      (by decide)).2
    exact (old (by decide)).2.1

/-- A document with the least negative limit is too old at once, so reading it asks the store. -/
theorem isExpired_of_negativeLimit :
    let entry : CacheEntry := { document := some .empty, createdAt := 0, expirySecs := 2 ^ 63 }
    entry.expirySecs < 2 ^ 64 ∧ entry.isExpired 0 ∧ ¬ entry.HasReachedLimit 0 ∧
      ((read portsOnly "PORT").outcome (holdingPorts (2 ^ 63) 0)).1.toOption = none := by
  decide +kernel

end Cache

end ConfigVetting
