import ConfigVetting.Json.Record

/-! # Schema declarations

What a schema file declares: tables with a key pattern, their leaves and their must rules. A
declaration is read from JSON and written back to it; members that have their usual value may be
absent.
-/

namespace ConfigVetting

/-- The type of a leaf. -/
inductive LeafType where
  /-- Any text. -/
  | string
  /-- A whole number of 64 bits within optional bounds. -/
  | int (min max : Option Int)
  /-- The text `true` or `false`. -/
  | bool
  /-- One of the listed texts. -/
  | enum (values : List String)
  deriving DecidableEq, Repr

/-- The declaration of a leaf. -/
structure LeafDecl where
  name : String
  type : LeafType := .string
  mandatory : Bool := false
  /-- Whether the leaf holds several values. -/
  isList : Bool := false
  /-- The paths of leaves one of which must hold each value. -/
  leafrefs : List String := []
  pattern : Option String := none
  errorMessage : Option String := none
  errorTag : Option String := none
  deriving DecidableEq, Repr

/-- A rule over the configuration, owned by a leaf or by the whole list. Its expression is not
evaluated; the tables it names count as dependencies. -/
structure MustRule where
  node : String
  expression : String
  errorMessage : Option String := none
  errorTag : Option String := none
  deriving DecidableEq, Repr

/-- The declaration of a table. -/
structure TableDecl where
  name : String
  keyPattern : String
  keyDelimiter : Option String := none
  maxElements : Option Nat := none
  /-- The names of the two leaves that the fields of a row become, one entry per field. -/
  mapLeaves : Option (List String) := none
  leaves : List LeafDecl := []
  must : List MustRule := []
  deriving DecidableEq, Repr

/-- The tables declared by one schema file. -/
structure ModuleDecl where
  name : String
  tables : List TableDecl
  deriving DecidableEq, Repr

namespace LeafType

/-- The name of a type. -/
def name : LeafType → String
  | string => "string"
  | int .. => "int"
  | bool => "bool"
  | enum _ => "enum"

/-- The type with the given name, its own members read by name. -/
def ofRecord? (name : String) (members : Json.Record) : Option LeafType :=
  if name = "string" then some string
  else if name = "bool" then some bool
  else if name = "int" then do
    let min ← members.optional "min" Json.asInt64?
    let max ← members.optional "max" Json.asInt64?
    some (int min max)
  else if name = "enum" then
    (members.required "values" (Json.asList? Json.asText?)).map enum
  else none

/-- The names of the own members of a type. -/
def memberNames (name : String) : List String :=
  if name = "int" then ["min", "max"] else if name = "enum" then ["values"] else []

/-- A type is an object whose member `kind` names it, or an array that starts with its name. -/
def ofJson? : Json → Option LeafType
  | .object members => do
    match members.filter fun (name, _) => name = "kind" with
    | [(_, .text name)] => ofRecord? name (← (Json.object members).record? (memberNames name))
    | _ => none
  | .array (.text name :: items) => do
    ofRecord? name (← (Json.array items).record? (memberNames name))
  | _ => none

/-- The type as an object. -/
def toJson : LeafType → Json
  | int min max => .object ([("kind", .text "int")] ++ Json.some? "min" (min.map .int) ++
      Json.some? "max" (max.map .int))
  | enum values => .object [("kind", .text "enum"), ("values", .texts values)]
  | type => .object [("kind", .text type.name)]

end LeafType

namespace LeafDecl

/-- A leaf declaration, if the value is one. -/
def ofJson? (value : Json) : Option LeafDecl := do
  let record ← value.record? ["name", "type", "mandatory", "leaf_list", "leafref", "pattern",
    "error_message", "error_app_tag"]
  some {
    name := ← record.required "name" Json.asText?
    type := ← record.withDefault "type" .string LeafType.ofJson?
    mandatory := ← record.withDefault "mandatory" false Json.asBool?
    isList := ← record.withDefault "leaf_list" false Json.asBool?
    leafrefs := ← record.withDefault "leafref" [] (Json.asList? Json.asText?)
    pattern := ← record.optional "pattern" Json.asText?
    errorMessage := ← record.optional "error_message" Json.asText?
    errorTag := ← record.optional "error_app_tag" Json.asText? }

/-- The declaration as an object. -/
def toJson (leaf : LeafDecl) : Json :=
  .object ([("name", .text leaf.name), ("type", leaf.type.toJson),
      ("mandatory", .bool leaf.mandatory), ("leaf_list", .bool leaf.isList)] ++
    Json.some? "leafref" (if leaf.leafrefs.isEmpty then none else some (.texts leaf.leafrefs)) ++
    Json.some? "pattern" (leaf.pattern.map .text) ++
    Json.some? "error_message" (leaf.errorMessage.map .text) ++
    Json.some? "error_app_tag" (leaf.errorTag.map .text))

end LeafDecl

namespace MustRule

/-- A must rule, if the value is one. -/
def ofJson? (value : Json) : Option MustRule := do
  let record ← value.record? ["node", "expr", "error_message", "error_app_tag"]
  some {
    node := ← record.required "node" Json.asText?
    expression := ← record.required "expr" Json.asText?
    errorMessage := ← record.optional "error_message" Json.asText?
    errorTag := ← record.optional "error_app_tag" Json.asText? }

/-- The rule as an object. -/
def toJson (rule : MustRule) : Json :=
  .object ([("node", .text rule.node), ("expr", .text rule.expression)] ++
    Json.some? "error_message" (rule.errorMessage.map .text) ++
    Json.some? "error_app_tag" (rule.errorTag.map .text))

end MustRule

namespace TableDecl

/-- A table declaration, if the value is one. -/
def ofJson? (value : Json) : Option TableDecl := do
  let record ← value.record? ["name", "key_pattern", "key_delimiter", "max_elements", "map_leaf",
    "fields", "must"]
  some {
    name := ← record.required "name" Json.asText?
    keyPattern := ← record.required "key_pattern" Json.asText?
    keyDelimiter := ← record.optional "key_delimiter" Json.asText?
    maxElements := ← record.optional "max_elements" Json.asNat64?
    mapLeaves := ← record.optional "map_leaf" (Json.asList? Json.asText?)
    leaves := ← record.withDefault "fields" [] (Json.asList? LeafDecl.ofJson?)
    must := ← record.withDefault "must" [] (Json.asList? MustRule.ofJson?) }

/-- The declaration as an object. -/
def toJson (table : TableDecl) : Json :=
  .object ([("name", .text table.name), ("key_pattern", .text table.keyPattern)] ++
    Json.some? "key_delimiter" (table.keyDelimiter.map .text) ++
    Json.some? "max_elements" (table.maxElements.map .nat) ++
    Json.some? "map_leaf" (table.mapLeaves.map .texts) ++
    [("fields", .array (table.leaves.map LeafDecl.toJson))] ++
    Json.some? "must"
      (if table.must.isEmpty then none else some (.array (table.must.map MustRule.toJson))))

end TableDecl

namespace ModuleDecl

/-- A module declaration, if the value is one. -/
def ofJson? (value : Json) : Option ModuleDecl := do
  let record ← value.record? ["module", "tables"]
  some {
    name := ← record.required "module" Json.asText?
    tables := ← record.required "tables" (Json.asList? TableDecl.ofJson?) }

/-- The declaration as an object. -/
def toJson (decl : ModuleDecl) : Json :=
  .object [("module", .text decl.name),
    ("tables", .array (decl.tables.map TableDecl.toJson))]

end ModuleDecl

end ConfigVetting
