import ConfigVetting.Text.Cut
import ConfigVetting.Text.Numeral

/-! # Change notifications

A change of a key is announced on a channel that spells out the number of the database and the key;
what happened is the payload. A subscription names channels by patterns, which may end in a star.
-/

namespace ConfigVetting

/-- What happened to a key. -/
inductive ChangeKind where
  /-- Fields were written. -/
  | fieldsSet
  /-- Fields were removed. -/
  | fieldsDeleted
  /-- The whole row was removed. -/
  | rowDeleted
  deriving DecidableEq, Repr

namespace ChangeKind

/-- The change that a payload tells of, in either of its spellings. -/
def parse? (payload : String) : Option ChangeKind :=
  if payload = "hset" || payload = "field-set" then some fieldsSet
  else if payload = "hdel" || payload = "field-delete" then some fieldsDeleted
  else if payload = "del" || payload = "key-delete" then some rowDeleted
  else none

/-- The payload that tells of a change. -/
def payload : ChangeKind → String
  | fieldsSet => "hset"
  | fieldsDeleted => "hdel"
  | rowDeleted => "del"

/-- A payload is read back as its change. -/
theorem parse?_payload (kind : ChangeKind) : parse? kind.payload = some kind := by
  cases kind <;> decide

end ChangeKind

/-- The announcement of a change. -/
structure Notification where
  channel : String
  payload : String
  deriving DecidableEq, Repr

namespace Channel

/-- How every channel of a key starts. -/
def keyspace : String := "__keyspace@"

/-- What stands between the number of the database and the key. -/
def keyMark : String := "__:"

/-- The channel of a key. -/
def ofKey (database : Nat) (key : String) : String :=
  keyspace ++ toString database ++ keyMark ++ key

/-- The pattern for the channels of all keys of a table. -/
def ofTable (database : Nat) (table delimiter : String) : String :=
  ofKey database (table ++ delimiter ++ "*")

/-- Whether a channel is one that a pattern stands for: a pattern with a star at its end stands for
every channel that starts like it, any other for itself. -/
def covered (pattern channel : String) : Bool :=
  match Text.beforeLast '*' pattern with
  | some start => Text.startsWith start channel
  | none => pattern = channel

end Channel

namespace Notification

/-- The announcement of a change of a key. -/
def ofKey (database : Nat) (key : String) (kind : ChangeKind) : Notification :=
  ⟨Channel.ofKey database key, kind.payload⟩

/-- The number of the database, as written, and the key. -/
def databaseAndKey (notification : Notification) : Option (String × String) :=
  (Text.afterStart Channel.keyspace notification.channel).bind (Text.cut Channel.keyMark)

/-- The key that changed. -/
def key (notification : Notification) : Option String :=
  notification.databaseAndKey.map Prod.snd

/-- The number of the database. -/
def database (notification : Notification) : Option Nat :=
  notification.databaseAndKey.bind fun (text, _) => Text.nat32? text

/-- What happened to the key. -/
def kind (notification : Notification) : Option ChangeKind :=
  ChangeKind.parse? notification.payload

end Notification

end ConfigVetting
