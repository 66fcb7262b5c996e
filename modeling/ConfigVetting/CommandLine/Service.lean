import ConfigVetting.CommandLine.Arguments
import ConfigVetting.CommandLine.Fault
import ConfigVetting.Session
import ConfigVetting.Store.Seed

/-! # Commands

Summarising a schema, and vetting batches of edits in one session, each batch on a line of its own.
A line that is JSON but no batch is answered with a fault; one that is not JSON is too, and ends the
input. Blank lines are passed over.
-/

namespace ConfigVetting.CommandLine

variable {m : Type → Type} [Monad m]

/-- One session, with all that it works on. -/
structure Service where
  engine : Engine
  session : Session
  world : World

/-- The answer to an accepted batch. -/
def accepted : Json :=
  .object [("status", .text "ok"), ("code", .text ReturnCode.success.text)]

/-- The answer to a rejected batch. -/
def rejected (rejection : Rejection) : Json :=
  .object [("status", .text "error"), ("code", .text rejection.code.text),
    ("info", rejection.info.toJson)]

/-- The answer to a line that is no batch. -/
def refused (fault : Fault) : Json :=
  .object [("status", .text "error"), ("code", .text fault.code), ("message", .text fault.message)]

/-- The configuration in a file. -/
def readConfig (files : FileAccess m) (path : String) : ExceptT Fault m Config := do
  match ← (Config.load files path : m _) with
  | .ok config => return config
  | .error fault => throw (.config fault)

/-- The summary of a table. -/
def tableSummary (table : TableSchema) : Json :=
  .object [("table", .text table.name), ("module", .text table.moduleName),
    ("keys", .texts table.keyNames), ("fields", .nat table.leaves.size),
    ("leafrefs", .nat (table.leaves.values.countP fun leaf => !leaf.targets.isEmpty)),
    ("must", .nat table.must.size), ("dependent_tables", .texts table.dependentTables.toList),
    ("max_elements", (table.maxElements.map Json.nat).getD .null)]

/-- The summary of a schema. -/
def schemaSummary (schema : Schema) : Json :=
  .object [("status", .text "ok"), ("tables", .array (schema.tables.values.map tableSummary))]

/-- The summary of the schema that a configuration names. -/
def checkSchema [PatternReader] (files : FileAccess m) (path : String) : ExceptT Fault m Json := do
  let config ← readConfig files path
  match ← (SchemaFiles.load files config.schemaDir config.keyDelimiter).run with
  | .ok schema => return schemaSummary schema
  | .error fault => throw (.schema fault)

/-- The store with the rows of a seed file, if one is named. -/
def readData (files : FileAccess m) (store : Store) :
    Option String → ExceptT Fault m Store
  | none => return store
  | some path => do
    match ← files.readText path with
    | .error reason => throw (.unreadableData path reason)
    | .ok text =>
      match Json.parse? text with
      | none => throw (.malformedData path "the file holds no JSON")
      | some value =>
        match Seed.rows value with
        | .error fault => throw (.data fault)
        | .ok rows => return store.load rows

namespace Service

/-- An engine started with a configuration and the outcome of reading its schema. -/
def startEngine (config : Config) (schema : Except SchemaFault Schema) : WorldM Engine := do
  let schema ← Engine.adoptSchema config schema
  Engine.start config schema (.ofSchema schema)

/-- A session on a started engine. -/
def start (config : Config) (schema : Except SchemaFault Schema) (store : Store) :
    Except Fault Service :=
  match StateT.run (m := Id) (startEngine config schema).run { store } with
  | (.error rejection, _) => .error (.start rejection)
  | (.ok engine, world) =>
    let (session, world) := StateT.run (m := Id) (Session.start "cli") world
    .ok { engine, session, world }

/-- The service that a configuration and a seed file set up. -/
def load [PatternReader] (files : FileAccess m) (configPath : String) (data : Option String) :
    ExceptT Fault m Service := do
  let config ← readConfig files configPath
  let store ← readData files { database := config.database } data
  let schema ← (SchemaFiles.load files config.schemaDir config.keyDelimiter).run
  match start config schema store with
  | .ok service => return service
  | .error fault => throw fault

/-- The service after a batch, and the answer to it. -/
def vet (service : Service) (edits : List Edit) : Json × Service :=
  let work : StateM World (Except Rejection Unit × Session) := do
    Listener.settle service.engine.setting
    service.session.validate service.engine edits
  let ((outcome, session), world) := StateT.run (m := Id) work service.world
  let answer :=
    match outcome with
    | .ok () => accepted
    | .error rejection => rejected rejection
  (answer, { service with session, world })

/-- What becomes of a line of the input. -/
inductive Reply where
  /-- Nothing is said of a blank line. -/
  | passed
  /-- The line is answered, and the input goes on. -/
  | answered (answer : Json) (service : Service)
  /-- The line is answered, and the input ends. -/
  | ended (answer : Json)

/-- What becomes of a line of the input. -/
def reply (service : Service) (line : String) : Reply :=
  if Text.allBlank line then .passed
  else
    match Json.parse? line with
    | none => .ended (refused (.input "the line holds no JSON"))
    | some value =>
      match Edit.listOfJson? value.settled with
      | none => .answered (refused (.request "the line holds no batch of edits")) service
      | some edits =>
        let (answer, service) := service.vet edits
        .answered answer service

/-- The answers to the lines of the input. -/
def answers (service : Service) : List String → List Json
  | [] => []
  | line :: rest =>
    match service.reply line with
    | .passed => answers service rest
    | .answered answer service => answer :: answers service rest
    | .ended answer => [answer]

end Service

end ConfigVetting.CommandLine
