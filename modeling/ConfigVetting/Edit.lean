import ConfigVetting.Json.Record

/-! # Edits

One request to create, update or delete a row, or to consider it only as context of others. An edit
is read from JSON and written back to it.
-/

namespace ConfigVetting

/-- What is asked for a row. -/
inductive Operation where
  | create | update | delete
  /-- The row is context only: it is neither created nor changed. -/
  | none
  deriving DecidableEq, Repr

namespace Operation

/-- The name of an operation. -/
def name : Operation → String
  | create => "create"
  | update => "update"
  | delete => "delete"
  | none => "none"

/-- The operation of a name. -/
def ofName? (name : String) : Option Operation :=
  [create, update, delete, none].find? fun operation => operation.name = name

end Operation

/-- A request for one row, named by its store key. -/
structure Edit where
  /-- Whether the row is checked; otherwise it is context for the checks of other rows. -/
  validateNow : Bool := true
  operation : Operation
  key : String
  fields : Fields := ∅

namespace Edit

/-- An edit, if the value is one. -/
def ofJson? (value : Json) : Option Edit := do
  let record ← value.record? ["validate_now", "operation", "key", "fields"]
  some {
    validateNow := ← record.withDefault "validate_now" true Json.asBool?
    operation := ← record.required "operation" (Json.asChoice? Operation.ofName?)
    key := ← record.required "key" Json.asText?
    fields := ← record.withDefault "fields" ∅ Json.asFields? }

/-- A list of edits, if the value is one. -/
def listOfJson? : Json → Option (List Edit) :=
  Json.asList? ofJson?

/-- The edit as an object. -/
def toJson (edit : Edit) : Json :=
  .object [("validate_now", .bool edit.validateNow), ("operation", .text edit.operation.name),
    ("key", .text edit.key), ("fields", Json.ofFields edit.fields)]

/-- The edit with one more field. -/
def withField (edit : Edit) (name value : String) : Edit :=
  { edit with fields := edit.fields.insert name value }

/-- The edit as context only. -/
def asContext (edit : Edit) : Edit :=
  { edit with validateNow := false }

end Edit

end ConfigVetting
