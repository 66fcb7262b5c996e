import ConfigVetting.Proofs.Text.Ends
import ConfigVetting.Proofs.Text.Parts
import ConfigVetting.Store.Notification

/-! # Channels of keys

The channel of a key spells out the number of the database and the key with a mark between them. A number
holds nothing that the mark starts with, so the first mark is the one between them, and both are read back
whatever the key holds (`ConfigVetting.Notification.databaseAndKey_ofKey`). What follows the beginning that a
pattern stands for is the rest of a key, so a table covers the channels of exactly the keys that start with
its name and delimiter in its own database (`ConfigVetting.Notification.tells_and_isCovered`).
-/

namespace ConfigVetting

namespace Notification

/-- The mark behind the number of the database is the first one. -/
theorem cut_keyMark (database : Nat) (key : String) :
    Text.cut Channel.keyMark (toString database ++ Channel.keyMark ++ key) =
      some (toString database, key) := by
  have digits : '_' ∉ (toString database).toList := by
    intro inside
    rw [Nat.toString_eq_repr, Nat.toList_repr] at inside
    exact absurd (Nat.isDigit_of_mem_toDigits (by decide) (by decide) inside) (by decide)
  have isPart : Text.IsPart ('_' :: ['_', ':']) (toString database).toList :=
    Text.isPart_of_notMem digits
  have first := Text.cutChars_of_isPart isPart key.toList
  have marked : Channel.keyMark.toList = '_' :: ['_', ':'] := by decide
  rw [Text.cut, String.toList_append, String.toList_append, marked, List.append_assoc, first]
  simp only [Option.map_some, String.ofList_toList]

/-- The number and the key are read back from a channel, whatever is told on it. -/
theorem databaseAndKey_ofKey (database : Nat) (key payload : String) :
    databaseAndKey ⟨Channel.ofKey database key, payload⟩ = some (toString database, key) := by
  have started : Text.afterStart Channel.keyspace (Channel.ofKey database key) =
      some (toString database ++ Channel.keyMark ++ key) :=
    Text.afterStart_eq_some_iff.mpr (by simp only [Channel.ofKey, String.append_assoc])
  rw [databaseAndKey, started, Option.bind_some, cut_keyMark]

/-- An announcement tells the key that it is of. -/
theorem key_ofKey (database : Nat) (key : String) (kind : ChangeKind) :
    (ofKey database key kind).key = some key := by
  rw [Notification.key, ofKey, databaseAndKey_ofKey, Option.map_some]

/-- An announcement tells the number of the database, if it is one of 32 bits. -/
theorem database_ofKey (database : Nat) (key : String) (kind : ChangeKind) :
    (ofKey database key kind).database =
      if database ≤ Text.nat32Greatest then some database else none := by
  rw [Notification.database, ofKey, databaseAndKey_ofKey, Option.bind_some]
  exact Text.natural?_toString Text.nat32Greatest database

/-- The kind of a change is read back from the notification of it. -/
theorem kind_ofKey (database : Nat) (key : String) (kind : ChangeKind) :
    (ofKey database key kind).kind = some kind :=
  kind.parse?_payload

end Notification

namespace Channel

/-- Channels are different for different databases and for different keys. -/
theorem ofKey_inj {database other : Nat} {key otherKey : String} :
    ofKey database key = ofKey other otherKey ↔ database = other ∧ key = otherKey := by
  constructor
  · intro same
    have told := Notification.databaseAndKey_ofKey database key ""
    rw [same, Notification.databaseAndKey_ofKey, Option.some.injEq, Prod.mk.injEq] at told
    obtain ⟨written, rfl⟩ := told
    have digits := congrArg (fun text : String => Text.digits? text.toList) written
    simp only [Nat.toString_eq_repr, Nat.toList_repr, Text.digits?_toDigits, Option.some.injEq] at digits
    exact ⟨digits.symm, rfl⟩
  · rintro ⟨rfl, rfl⟩
    rfl

/-- What comes behind the channel of a key goes on with the key. -/
theorem ofKey_append (database : Nat) (key rest : String) :
    ofKey database (key ++ rest) = ofKey database key ++ rest := by
  simp only [ofKey, String.append_assoc]

/-- The pattern of a table covers the channels of the keys in its database that start with the name and the
delimiter of the table. -/
theorem covered_ofTable_iff {database other : Nat} {table delimiter key : String} :
    covered (ofTable database table delimiter) (ofKey other key) = true ↔
      database = other ∧ ∃ rest, key = table ++ delimiter ++ rest := by
  have starred : ofTable database table delimiter = (ofKey database (table ++ delimiter)).push '*' := by
    rw [ofTable, ofKey_append]
    rfl
  rw [covered, Text.beforeLast_eq_some_iff.mpr starred]
  dsimp only
  rw [Text.startsWith_iff_exists]
  simp only [← ofKey_append, ofKey_inj, eq_comm (a := other)]
  constructor
  · rintro ⟨rest, same, rfl⟩
    exact ⟨same, rest, rfl⟩
  · rintro ⟨same, rest, rfl⟩
    exact ⟨rest, same, rfl⟩

end Channel

namespace Notification

/-- **Announcements tell what they are of.** The key, the number of the database and what happened are read
back from an announcement, whatever the key holds. The pattern of a table covers its channel exactly if the
database is that of the pattern and the key starts with the name and the delimiter of the table. -/
theorem tells_and_isCovered (database : Nat) (key : String) (kind : ChangeKind) :
    (ofKey database key kind).key = some key ∧
    (ofKey database key kind).database =
      (if database ≤ Text.nat32Greatest then some database else none) ∧
    (ofKey database key kind).kind = some kind ∧
    ∀ (other : Nat) (table delimiter : String),
      Channel.covered (Channel.ofTable other table delimiter) (Channel.ofKey database key) = true ↔
        other = database ∧ ∃ rest, key = table ++ delimiter ++ rest :=
  ⟨key_ofKey database key kind, database_ofKey database key kind, kind_ofKey database key kind,
    fun _ _ _ => Channel.covered_ofTable_iff⟩

end Notification

end ConfigVetting
