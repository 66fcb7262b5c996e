import ConfigVetting.Json.Printer
import ConfigVetting.Store.Basic

/-! # Seed data

Rows for a store are given as an object of keys, each an object of fields. A text is kept as it is;
an array becomes its members with commas between them; any other value becomes its JSON text.
-/

namespace ConfigVetting.Seed

/-- A member of an array as text. -/
def memberText : Json → String
  | .text value => value
  | value => value.render

/-- The value of a field as text. -/
def fieldText : Json → String
  | .array items => Text.joinWith "," (items.map memberText)
  | value => memberText value

/-- The fields of a key. -/
def fields (key : String) : Json → Except StoreFault Fields
  | .object members =>
    .ok (members.foldl (fun fields (name, value) => fields.insert name (fieldText value)) ∅)
  | _ => .error (.malformed s!"fields of '{key}' must be an object")

/-- The rows that a value gives, its members sorted first. -/
def rows (value : Json) : Except StoreFault (ByName Fields) :=
  match value.settled with
  | .object members => members.foldlM (fun rows (key, value) =>
      (fields key value).map fun fields => rows.insert key fields) ∅
  | _ => .error (.malformed "seed data must be an object of keys")

end ConfigVetting.Seed
