import ConfigVetting.Json.Printer
import ConfigVetting.Text.Cut

/-! # Events

What happens in the life of an engine, told with a name, a severity and fields in the order of their
names. The journal holds the events that happened.
-/

namespace ConfigVetting

/-- How grave an event is. -/
inductive Severity where
  | trace | info | warn | error | fatal
  deriving DecidableEq, Repr

/-- What an event is about. -/
inductive EventKind where
  | configLoaded
  | schemaLoaded
  | schemaLoadFailed
  | engineStart
  | engineShutdown
  | sessionOpen
  | sessionClose
  | validationAccepted
  | validationRejected
  | dependenciesResolved
  | fetchBatch
  | cacheBuild
  | cacheHit
  | cacheMiss
  | cacheInvalidate
  | notificationApplied
  | notificationFailed
  | listenerResubscribed
  | listenerStopped
  deriving DecidableEq, Repr

/-- Something that happened. -/
structure Event where
  kind : EventKind
  fields : List (String × String) := []
  deriving DecidableEq, Repr

namespace Severity

/-- The name of a severity. -/
def name : Severity → String
  | trace => "TRACE"
  | info => "INFO"
  | warn => "WARN"
  | error => "ERROR"
  | fatal => "FATAL"

/-- The rank of a severity, the gravest last. -/
def rank : Severity → Nat
  | trace => 0
  | info => 1
  | warn => 2
  | error => 3
  | fatal => 4

/-- The level that a log shows for a severity. -/
def level : Severity → String
  | trace => "DEBUG"
  | info => "INFO"
  | warn => "WARN"
  | error | fatal => "ERROR"

end Severity

namespace EventKind

/-- All kinds of events. -/
def all : List EventKind :=
  [configLoaded, schemaLoaded, schemaLoadFailed, engineStart, engineShutdown, sessionOpen,
    sessionClose, validationAccepted, validationRejected, dependenciesResolved, fetchBatch,
    cacheBuild, cacheHit, cacheMiss, cacheInvalidate, notificationApplied, notificationFailed,
    listenerResubscribed, listenerStopped]

/-- The name of a kind of event. -/
def name : EventKind → String
  | configLoaded => "CONFIG_LOADED"
  | schemaLoaded => "SCHEMA_LOADED"
  | schemaLoadFailed => "SCHEMA_LOAD_FAILED"
  | engineStart => "ENGINE_START"
  | engineShutdown => "ENGINE_SHUTDOWN"
  | sessionOpen => "SESSION_OPEN"
  | sessionClose => "SESSION_CLOSE"
  | validationAccepted => "VALIDATION_ACCEPTED"
  | validationRejected => "VALIDATION_REJECTED"
  | dependenciesResolved => "DEPENDENCIES_RESOLVED"
  | fetchBatch => "FETCH_BATCH"
  | cacheBuild => "CACHE_BUILD"
  | cacheHit => "CACHE_HIT"
  | cacheMiss => "CACHE_MISS"
  | cacheInvalidate => "CACHE_INVALIDATE"
  | notificationApplied => "NOTIFICATION_APPLIED"
  | notificationFailed => "NOTIFICATION_FAILED"
  | listenerResubscribed => "LISTENER_RESUBSCRIBED"
  | listenerStopped => "LISTENER_STOPPED"

/-- How grave a kind of event is. -/
def severity : EventKind → Severity
  | schemaLoadFailed => .fatal
  | validationRejected | notificationFailed => .warn
  | cacheHit | cacheMiss | fetchBatch | dependenciesResolved => .trace
  | _ => .info

/-- Whether nothing can be vetted after an event of this kind. -/
def isFatal (kind : EventKind) : Bool :=
  kind.severity = .fatal

end EventKind

/-- Fields in the order of their names, each with its value quoted. -/
def renderFields (fields : List (String × String)) : String :=
  Text.joinWith " " ((fields.mergeSort fun first second => first.1 ≤ second.1).map
    fun (name, value) => name ++ "=" ++ Json.quoted value)

/-- The fields of an event as a log shows them. -/
def Event.render (event : Event) : String :=
  renderFields event.fields

/-- The formats of a log. -/
inductive LogFormat where
  | compact | json
  deriving DecidableEq, Repr

/-- The format of a name, whatever its case; the compact one for unknown names. -/
def LogFormat.ofName (name : String) : LogFormat :=
  let name := name.map Char.toLower
  if name = "json" || name = "jsonl" then .json else .compact

end ConfigVetting
