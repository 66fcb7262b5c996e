import ConfigVetting.Cache.Listener
import ConfigVetting.Check
import ConfigVetting.Config
import ConfigVetting.Schema.Files

/-! # Engines

An engine is what all sessions share: a schema, the settings it was started with, and the processor
that judges subjects. Starting it fills the cache with the tables of its configuration.
-/

namespace ConfigVetting

/-- Judges a subject for an operation, with the data it depends on. -/
abbrev Processor := Document → Option Document → Operation → Except Rejection Unit

/-- What all sessions share. -/
structure Engine where
  setting : Setting
  processor : Processor

/-- The processor that holds subjects against a schema. -/
def Processor.ofSchema (schema : Schema) : Processor :=
  fun subject dependent operation =>
    schema.check subject.roots (dependent.map Document.roots) operation

namespace Engine

/-- Takes note of a schema that was loaded for a configuration, or of the fault in it. -/
def adoptSchema (config : Config) : Except SchemaFault Schema → WorldM Schema
  | .ok schema => do
    World.note .schemaLoaded
      [("dir", config.schemaDir), ("tables", toString schema.tables.size)]
    return schema
  | .error fault => do
    World.note .schemaLoadFailed [("code", fault.code), ("error", fault.message)]
    throw (.ofSchema fault)

/-- An engine with a schema and a processor. -/
def start (config : Config) (schema : Schema) (processor : Processor) : WorldM Engine := do
  match config.check with
  | .error fault => throw (.internal fault.message)
  | .ok () =>
    let setting := { schema, database := config.database, batchSize := config.batchSize }
    config.cachedTables.forM fun cached => Cache.add setting cached.table cached.expirySecs
    World.note .engineStart [("cached_tables", toString config.cachedTables.length),
      ("tables", toString schema.tables.size)]
    return { setting, processor }

/-- Stops the listener of the cache. -/
def shutdown : StateM World Unit := do
  Cache.shutdown
  World.note .engineShutdown []

/-- Has a subject judged. -/
def judge (engine : Engine) (subject : Document) (dependent : Option Document)
    (operation : Operation) : WorldM Unit := do
  modify fun world => { world with
    consultations := world.consultations ++ [{ operation, subject, dependent }] }
  (engine.processor subject dependent operation : Except Rejection _)

end Engine

end ConfigVetting
