import ConfigVetting.Json.Record
import ConfigVetting.Schema.Fault
import ConfigVetting.Store.Fault
import ConfigVetting.Text.Cut

/-! # Rejections

Why a batch of edits is not accepted: a return code, and the table, key, field and constraint it is
about, so that a caller need not read them off the message.
-/

namespace ConfigVetting

/-- The families of return codes. -/
inductive ReturnCode.Category where
  | success | syntactic | semantic | schema | store | internal
  deriving DecidableEq, Repr

/-- How a call ended. -/
inductive ReturnCode where
  /-- The edits are accepted. -/
  | success
  /-- A field that the request needs is missing. -/
  | missingField
  /-- A field is not declared by its table. -/
  | undeclaredField
  /-- A value is not of the declared type. -/
  | wrongType
  /-- A field that is no list has several values. -/
  | repeatedField
  /-- A value is none of the declared ones. -/
  | notInEnum
  /-- A value is outside the declared bounds. -/
  | outOfRange
  /-- A value does not match the declared pattern. -/
  | patternMismatch
  /-- A table would hold more rows than it may. -/
  | tooManyElements
  /-- Data that a leafref names does not exist. -/
  | dependentDataMissing
  /-- A mandatory field is absent from a created row. -/
  | mandatoryDataMissing
  /-- A row to create exists already. -/
  | keyExists
  /-- A row to update or delete does not exist. -/
  | keyNotFound
  /-- One request stages a key twice. -/
  | repeatedKey
  /-- A key does not fit the key pattern of its table. -/
  | invalidKey
  /-- A delete would leave a leafref without its data. -/
  | leafrefIntegrity
  /-- The schema could not be loaded. -/
  | schemaLoad
  /-- The store failed. -/
  | store
  /-- A document has an unexpected shape. -/
  | internal
  deriving DecidableEq, Repr

namespace ReturnCode

/-- The name of a family. -/
def Category.text : Category → String
  | success => "SUCCESS"
  | syntactic => "SYNTAX"
  | semantic => "SEMANTIC"
  | schema => "SCHEMA"
  | store => "STORE"
  | internal => "INTERNAL"

/-- The text of a return code. -/
def text : ReturnCode → String
  | success => "CVL_SUCCESS"
  | missingField => "CVL_SYNTAX_MISSING_FIELD"
  | undeclaredField => "CVL_SYNTAX_INVALID_FIELD"
  | wrongType => "CVL_SYNTAX_INVALID_INPUT_DATA"
  | repeatedField => "CVL_SYNTAX_DUPLICATE"
  | notInEnum => "CVL_SYNTAX_ENUM_INVALID"
  | outOfRange => "CVL_SYNTAX_OUT_OF_RANGE"
  | patternMismatch => "CVL_SYNTAX_PATTERN_INVALID"
  | tooManyElements => "CVL_SYNTAX_MAXIMUM_INVALID"
  | dependentDataMissing => "CVL_SEMANTIC_DEPENDENT_DATA_MISSING"
  | mandatoryDataMissing => "CVL_SEMANTIC_MANDATORY_DATA_MISSING"
  | keyExists => "CVL_SEMANTIC_KEY_ALREADY_EXIST"
  | keyNotFound => "CVL_SEMANTIC_KEY_NOT_EXIST"
  | repeatedKey => "CVL_SEMANTIC_KEY_DUPLICATE"
  | invalidKey => "CVL_SEMANTIC_KEY_INVALID"
  | leafrefIntegrity => "CVL_SEMANTIC_ERROR"
  | schemaLoad => "CVL_SCHEMA_LOAD_ERROR"
  | store => "CVL_STORE_ERROR"
  | internal => "CVL_INTERNAL_UNKNOWN"

/-- The family of a return code. -/
def category : ReturnCode → Category
  | success => .success
  | missingField | undeclaredField | wrongType | repeatedField | notInEnum | outOfRange
  | patternMismatch | tooManyElements => .syntactic
  | dependentDataMissing | mandatoryDataMissing | keyExists | keyNotFound | repeatedKey | invalidKey
  | leafrefIntegrity => .semantic
  | schemaLoad => .schema
  | store => .store
  | internal => .internal

/-- Whether nothing can be vetted after a call that ended so. -/
def isFatal (code : ReturnCode) : Bool :=
  code.category = .schema

end ReturnCode

/-- What a rejection is about; a text that is empty says nothing. -/
structure ErrorInfo where
  table : String := ""
  keyComponents : List String := []
  field : String := ""
  value : String := ""
  message : String
  /-- The message that the schema declares for the violated constraint. -/
  constraintMessage : String := ""
  /-- The tag that the schema declares for the violated constraint. -/
  errorTag : String := ""
  deriving DecidableEq, Repr

namespace ErrorInfo

/-- An error description, if the value is one. -/
def ofJson? (value : Json) : Option ErrorInfo := do
  let record ← value.record? ["table", "key_components", "field", "value", "message",
    "constraint_message", "error_app_tag"]
  some {
    table := ← record.withDefault "table" "" Json.asText?
    keyComponents := ← record.withDefault "key_components" [] (Json.asList? Json.asText?)
    field := ← record.withDefault "field" "" Json.asText?
    value := ← record.withDefault "value" "" Json.asText?
    message := ← record.required "message" Json.asText?
    constraintMessage := ← record.withDefault "constraint_message" "" Json.asText?
    errorTag := ← record.withDefault "error_app_tag" "" Json.asText? }

/-- The error description as an object; all but the message is left out when empty. -/
def toJson (info : ErrorInfo) : Json :=
  let told (name text : String) := Json.some? name (if text.isEmpty then none else some (.text text))
  .object (told "table" info.table ++
    Json.some? "key_components"
      (if info.keyComponents.isEmpty then none else some (.texts info.keyComponents)) ++
    told "field" info.field ++ told "value" info.value ++ [("message", .text info.message)] ++
    told "constraint_message" info.constraintMessage ++ told "error_app_tag" info.errorTag)

end ErrorInfo

/-- A return code other than success, and what it is about. -/
structure Rejection where
  code : ReturnCode
  info : ErrorInfo
  deriving DecidableEq, Repr

namespace Rejection

/-- A rejection with only a message. -/
def ofMessage (code : ReturnCode) (message : String) : Rejection :=
  { code, info := { message } }

/-- The rejection, about a row of a table. -/
def onRow (rejection : Rejection) (table : String) (keyComponents : List String) : Rejection :=
  { rejection with info := { rejection.info with table, keyComponents } }

/-- The rejection, about a value of a field. -/
def onField (rejection : Rejection) (field value : String) : Rejection :=
  { rejection with info := { rejection.info with field, value } }

/-- The rejection, with what the schema declares for the violated constraint. -/
def withConstraint (rejection : Rejection) (message errorTag : Option String) : Rejection :=
  { rejection with info := { rejection.info with
    constraintMessage := message.getD rejection.info.constraintMessage
    errorTag := errorTag.getD rejection.info.errorTag } }

/-- A row to create exists already. -/
def keyExists (table : String) (keyComponents : List String) : Rejection :=
  (ofMessage .keyExists s!"Key already exists in table '{table}'").onRow table keyComponents

/-- A row to change does not exist. -/
def keyNotFound (table : String) (keyComponents : List String) : Rejection :=
  (ofMessage .keyNotFound s!"Key does not exist in table '{table}'").onRow table keyComponents

/-- A key does not fit the key pattern of its table. -/
def invalidKey (key reason : String) : Rejection :=
  { code := .invalidKey, info := { message := s!"Invalid key '{key}': {reason}", value := key } }

/-- A table would hold more rows than it may. -/
def tooManyElements (table : String) (limit : Nat) : Rejection :=
  (ofMessage .tooManyElements s!"Table '{table}' cannot hold more than {limit} entries").onRow table []

/-- A document has an unexpected shape. -/
def internal (message : String) : Rejection :=
  ofMessage .internal message

/-- A fault of the store as a rejection. -/
def ofStore (fault : StoreFault) : Rejection :=
  ofMessage (match fault with | .poisoned _ => .internal | _ => .store) fault.message

/-- A fault of the schema as a rejection. -/
def ofSchema (fault : SchemaFault) : Rejection :=
  ofMessage .schemaLoad fault.message

/-- The message of a rejection. -/
def message (rejection : Rejection) : String :=
  rejection.info.message

/-- One line that tells a rejection with its family, code and place. -/
def display (rejection : Rejection) : String :=
  let info := rejection.info
  let joined := Text.joinWith "|" info.keyComponents
  let key := if info.keyComponents.isEmpty then "" else s!", key '{joined}'"
  let field := if info.field.isEmpty then "" else s!", field '{info.field}'"
  let place := if info.table.isEmpty then "" else s!" (table '{info.table}'{key}{field})"
  s!"[{rejection.code.category.text}] {rejection.code.text}: {info.message}{place}"

end Rejection

/-- The return code of a call that ended in a rejection or not. -/
def ReturnCode.of {α : Type} : Except Rejection α → ReturnCode
  | .ok _ => .success
  | .error rejection => rejection.code

end ConfigVetting
