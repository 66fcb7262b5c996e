import ConfigVetting.Files
import ConfigVetting.Json.Reader
import ConfigVetting.Json.Record

/-! # Configuration

What an engine is started with. Only the schema directory must be given; a relative one is taken
from the directory of the configuration file.
-/

namespace ConfigVetting

/-- A table to cache from the start. -/
structure CachedTable where
  table : String
  /-- The greatest age of its document in seconds; 0 for no limit. -/
  expirySecs : Nat := 0
  deriving DecidableEq, Repr

/-- What an engine is started with. -/
structure Config where
  schemaDir : String
  /-- The number of the database that channels are made for. -/
  database : Nat := 4
  /-- The delimiter of keys where none is declared. -/
  keyDelimiter : String := "|"
  /-- How many rows are read in one batch. -/
  batchSize : Nat := 100
  cachedTables : List CachedTable := []
  logLevel : String := "info"
  logFormat : String := "compact"
  deriving DecidableEq, Repr

/-- What is wrong with a configuration. -/
inductive ConfigFault where
  | unreadable (path reason : String)
  | malformed (reason : String)
  | emptySchemaDir
  | zeroBatchSize
  | emptyDelimiter
  | unknownLogFormat (format : String)
  | unnamedCachedTable
  deriving DecidableEq, Repr

/-- The wording of a fault. -/
def ConfigFault.message : ConfigFault → String
  | unreadable path reason => s!"failed to read config '{path}': {reason}"
  | malformed reason => s!"invalid config JSON: {reason}"
  | emptySchemaDir => "invalid config: schema_dir must not be empty"
  | zeroBatchSize => "invalid config: fetch_batch_size must be > 0"
  | emptyDelimiter => "invalid config: key_delimiter must not be empty"
  | unknownLogFormat format =>
    s!"invalid config: Invalid log_format: '{format}'. Expected 'compact' or 'json'."
  | unnamedCachedTable => "invalid config: cached table name must not be empty"

namespace CachedTable

/-- A cached table, if the value is one. -/
def ofJson? (value : Json) : Option CachedTable := do
  let record ← value.record? ["table", "expiry_secs"]
  some {
    table := ← record.required "table" Json.asText?
    expirySecs := ← record.withDefault "expiry_secs" 0 Json.asNat64? }

/-- The cached table as an object. -/
def toJson (cached : CachedTable) : Json :=
  .object [("table", .text cached.table), ("expiry_secs", .nat cached.expirySecs)]

end CachedTable

namespace Config

/-- A configuration, if the value is one. -/
def ofJson? (value : Json) : Option Config := do
  let record ← value.record? ["schema_dir", "db_index", "key_delimiter", "fetch_batch_size",
    "cached_tables", "log_level", "log_format"]
  some {
    schemaDir := ← record.required "schema_dir" Json.asText?
    database := ← record.withDefault "db_index" 4 (Json.asNatural? Text.nat32Greatest)
    keyDelimiter := ← record.withDefault "key_delimiter" "|" Json.asText?
    batchSize := ← record.withDefault "fetch_batch_size" 100 Json.asNat64?
    cachedTables := ← record.withDefault "cached_tables" [] (Json.asList? CachedTable.ofJson?)
    logLevel := ← record.withDefault "log_level" "info" Json.asText?
    logFormat := ← record.withDefault "log_format" "compact" Json.asText? }

/-- The configuration as an object. -/
def toJson (config : Config) : Json :=
  .object [("schema_dir", .text config.schemaDir), ("db_index", .nat config.database),
    ("key_delimiter", .text config.keyDelimiter), ("fetch_batch_size", .nat config.batchSize),
    ("cached_tables", .array (config.cachedTables.map CachedTable.toJson)),
    ("log_level", .text config.logLevel), ("log_format", .text config.logFormat)]

/-- Checks that a configuration can be used. -/
def check (config : Config) : Except ConfigFault Unit := do
  if config.schemaDir.isEmpty then throw .emptySchemaDir
  if config.batchSize = 0 then throw .zeroBatchSize
  if config.keyDelimiter.isEmpty then throw .emptyDelimiter
  if config.logFormat ≠ "compact" && config.logFormat ≠ "json" then
    throw (.unknownLogFormat config.logFormat)
  if config.cachedTables.any fun cached => cached.table.isEmpty then throw .unnamedCachedTable

/-- The configuration of a file at a path, with its schema directory taken from there. -/
def fromFile (config : Config) (path : String) : Config :=
  if Path.isAbsolute config.schemaDir then config
  else
    match Path.parent? path with
    | some directory => { config with schemaDir := Path.join directory config.schemaDir }
    | none => config

/-- The configuration that a text at a path writes down. -/
def parse (path text : String) : Except ConfigFault Config := do
  match (Json.parse? text).bind ofJson? with
  | none => throw (.malformed "the file holds no configuration")
  | some config =>
    let config := config.fromFile path
    config.check
    return config

/-- The configuration in a file. -/
def load {m : Type → Type} [Monad m] (files : FileAccess m) (path : String) :
    m (Except ConfigFault Config) := do
  match ← files.readText path with
  | .error reason => return .error (.unreadable path reason)
  | .ok text => return parse path text

end Config

end ConfigVetting
