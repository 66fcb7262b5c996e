/-! # Schema faults

Why a schema cannot be used. Every schema fault is fatal: without a schema nothing can be vetted.
-/

namespace ConfigVetting

/-- What is wrong with a schema. -/
inductive SchemaFault.Cause where
  /-- A directory or file that cannot be read. -/
  | unreadable (path reason : String)
  /-- A file that is no schema file. -/
  | malformed (path reason : String)
  /-- A table that is declared twice. -/
  | duplicateTable (table : String)
  /-- A key pattern that does not describe the keys of its table. -/
  | invalidKeyPattern (table reason : String)
  /-- A leafref path that names no leaf of a table. -/
  | invalidLeafref (table leaf path : String)
  /-- A declaration that does not fit the others of its table. -/
  | invalidLeaf (table reason : String)
  deriving DecidableEq, Repr

/-- A schema fault and, where known, the file or directory it was found in. -/
structure SchemaFault where
  cause : SchemaFault.Cause
  path : Option String := none
  deriving DecidableEq, Repr

namespace SchemaFault

/-- The code of a cause. -/
def Cause.code : Cause → String
  | unreadable .. => "CVL_SCHEMA_UNREADABLE"
  | malformed .. => "CVL_SCHEMA_MALFORMED"
  | duplicateTable _ => "CVL_SCHEMA_DUPLICATE_TABLE"
  | invalidKeyPattern .. => "CVL_SCHEMA_INVALID_KEY_PATTERN"
  | invalidLeafref .. => "CVL_SCHEMA_INVALID_LEAFREF"
  | invalidLeaf .. => "CVL_SCHEMA_INVALID_FIELD"

/-- The wording of a cause. -/
def Cause.message : Cause → String
  | unreadable path reason => s!"Cannot read schema source '{path}': {reason}"
  | malformed path reason => s!"Malformed schema file '{path}': {reason}"
  | duplicateTable table => s!"Table '{table}' is declared more than once"
  | invalidKeyPattern table reason => s!"Table '{table}' has an invalid key pattern: {reason}"
  | invalidLeafref table leaf path =>
    s!"Table '{table}' field '{leaf}' has an unresolvable leafref path '{path}'"
  | invalidLeaf table reason => s!"Table '{table}': {reason}"

/-- The table a cause is about. -/
def Cause.table : Cause → Option String
  | unreadable .. | malformed .. => none
  | duplicateTable table | invalidKeyPattern table _ | invalidLeafref table _ _
  | invalidLeaf table _ => some table

/-- The fault of an unreadable source, found there. -/
def unreadable (path reason : String) : SchemaFault :=
  ⟨.unreadable path reason, some path⟩

/-- The fault of a malformed file, found there. -/
def malformed (path reason : String) : SchemaFault :=
  ⟨.malformed path reason, some path⟩

/-- The fault of a declaration, found in no file yet. -/
def ofCause (cause : Cause) : SchemaFault :=
  ⟨cause, none⟩

/-- The fault, found in a file or directory. -/
def inFile (fault : SchemaFault) (path : String) : SchemaFault :=
  { fault with path := some path }

/-- The code of a fault. -/
def code (fault : SchemaFault) : String :=
  fault.cause.code

/-- The wording of a fault. -/
def message (fault : SchemaFault) : String :=
  fault.cause.message

/-- The table a fault is about. -/
def table (fault : SchemaFault) : Option String :=
  fault.cause.table

/-- One line that tells a fault with its code and place. -/
def display (fault : SchemaFault) : String :=
  let place :=
    match fault.path with
    | some path => s!" [in {path}]"
    | none => ""
  s!"[FATAL] {fault.code}: {fault.message}{place}"

end SchemaFault

end ConfigVetting
