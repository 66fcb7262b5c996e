import ConfigVetting.Json.Value
import ConfigVetting.Rows
import ConfigVetting.Text.Numeral

/-! # Reading records out of JSON

A record has named members in a fixed order. It may be written as an object, where no member of the
record is repeated and other members are ignored, or as an array of its first members.
-/

namespace ConfigVetting.Json

/-- The members of a record. -/
abbrev Record := List (String × Json)

/-- The members of a record with the given names, whichever way it is written. -/
def record? (names : List String) : Json → Option Record
  | .object members =>
    let known := members.filter fun (name, _) => names.contains name
    if (known.map Prod.fst).Nodup then some known else none
  | .array items => if items.length ≤ names.length then some (names.zip items) else none
  | _ => none

/-- A member that must be there. -/
def Record.required {α : Type} (record : Record) (name : String) (read : Json → Option α) :
    Option α :=
  (record.lookup name).bind read

/-- A member that may be absent or null. -/
def Record.optional {α : Type} (record : Record) (name : String) (read : Json → Option α) :
    Option (Option α) :=
  match record.lookup name with
  | none | some .null => some none
  | some value => (read value).map some

/-- A member that has a value of its own when absent. -/
def Record.withDefault {α : Type} (record : Record) (name : String) (default : α)
    (read : Json → Option α) : Option α :=
  match record.lookup name with
  | none => some default
  | some value => read value

/-- A text. -/
def asText? : Json → Option String
  | .text value => some value
  | _ => none

/-- A truth value. -/
def asBool? : Json → Option Bool
  | .bool value => some value
  | _ => none

/-- A whole number in a range. -/
def asInteger? (least greatest : Int) : Json → Option Int
  | .number (.whole value) => if least ≤ value && value ≤ greatest then some value else none
  | _ => none

/-- A whole number of 64 bits with a sign. -/
def asInt64? : Json → Option Int :=
  asInteger? Text.int64Least Text.int64Greatest

/-- A whole number without a sign, at most a limit. -/
def asNatural? (limit : Nat) : Json → Option Nat
  | .number (.whole (.ofNat value)) => if value ≤ limit then some value else none
  | _ => none

/-- A whole number of 64 bits without a sign. -/
def asNat64? : Json → Option Nat :=
  asNatural? Text.nat64Greatest

/-- An array of values of one kind. -/
def asList? {α : Type} (read : Json → Option α) : Json → Option (List α)
  | .array items => items.mapM read
  | _ => none

/-- An object of texts; the last member of a name wins. -/
def asFields? : Json → Option Fields
  | .object members =>
    members.foldlM (fun fields (name, value) => (asText? value).map (fields.insert name ·)) ∅
  | _ => none

/-- One of some names: the text itself, or an object whose only member has it and is null. -/
def asChoice? {α : Type} (choose : String → Option α) : Json → Option α
  | .text name => choose name
  | .object [(name, .null)] => choose name
  | _ => none

/-- Fields as an object of texts. -/
def ofFields (fields : Fields) : Json :=
  .object (fields.toList.map fun (name, value) => (name, .text value))

/-- A member that is left out when there is no value. -/
def some? (name : String) (value : Option Json) : Record :=
  match value with
  | none => []
  | some value => [(name, value)]

end ConfigVetting.Json
