import ConfigVetting.Config
import ConfigVetting.Rejection

/-! # Faults of the command line

Why the program cannot start, or cannot take a line of its input.
-/

namespace ConfigVetting.CommandLine

/-- What went wrong outside the vetting itself. -/
inductive Fault where
  | config (fault : ConfigFault)
  /-- The input is not JSON. -/
  | input (reason : String)
  | unreadableData (path reason : String)
  | malformedData (path reason : String)
  | data (fault : StoreFault)
  | schema (fault : SchemaFault)
  | start (rejection : Rejection)
  /-- A line of the input is no batch of edits. -/
  | request (reason : String)
  deriving DecidableEq, Repr

namespace Fault

/-- The code of a fault. -/
def code : Fault → String
  | config _ => "CVL_CLI_CONFIG_ERROR"
  | input _ => "CVL_CLI_IO_ERROR"
  | unreadableData .. | malformedData .. | data _ => "CVL_CLI_DATA_ERROR"
  | schema _ | start _ => "CVL_CLI_BOOT_FAILED"
  | request _ => "CVL_CLI_INVALID_REQUEST"

/-- The wording of a fault. -/
def message : Fault → String
  | config fault => fault.message
  | input reason => s!"JSON error: {reason}"
  | unreadableData path reason => s!"Failed to read '{path}': {reason}"
  | malformedData path reason => s!"Invalid JSON in '{path}': {reason}"
  | data fault => fault.message
  | schema fault => fault.display
  | start rejection => rejection.display
  | request reason => reason

/-- The fault on one line. -/
def display (fault : Fault) : String :=
  s!"{fault.code}: {fault.message}"

end Fault

end ConfigVetting.CommandLine
