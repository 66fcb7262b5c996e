import ConfigVetting.Files
import ConfigVetting.Json.Reader
import ConfigVetting.Schema.Index

/-! # Schema files

A schema is kept in a directory with one file for each module. The files whose names end in `.json`
are read in the order of their names, and the first fault ends the reading.
-/

namespace ConfigVetting.SchemaFiles

variable {m : Type → Type} [Monad m]

/-- The module that a file declares. -/
def readModule (files : FileAccess m) (path : String) : ExceptT SchemaFault m ModuleDecl := do
  match ← files.readText path with
  | .error reason => throw (.unreadable path s!"Failed to read file: {reason}")
  | .ok text =>
    match (Json.parse? text).bind ModuleDecl.ofJson? with
    | none => throw (.malformed path "Invalid JSON: the file declares no module")
    | some decl =>
      if decl.name.isEmpty then throw (.malformed path "module name is empty")
      else return decl

/-- The names of the schema files among the names in a directory, in order. -/
def schemaNames (names : List String) : List String :=
  (names.filter fun name => Path.extension? name = some "json").mergeSort fun a b => a ≤ b

/-- The modules declared by the files of a directory. -/
def readModules (files : FileAccess m) (directory : String) :
    ExceptT SchemaFault m (List ModuleDecl) := do
  match ← files.listNames directory with
  | .error reason => throw (.unreadable directory s!"Failed to read schema directory: {reason}")
  | .ok names => (schemaNames names).mapM fun name => readModule files (Path.join directory name)

/-- The schema of modules from a directory; a fault in it is one of the directory. -/
def build [PatternReader] (directory : String) (modules : List ModuleDecl) (delimiter : String) :
    Except SchemaFault Schema :=
  (Schema.build modules delimiter).mapError fun fault => fault.inFile directory

/-- The schema kept in a directory. -/
def load [PatternReader] (files : FileAccess m) (directory delimiter : String) :
    ExceptT SchemaFault m Schema := do
  let modules ← readModules files directory
  ExceptT.mk (pure (build directory modules delimiter))

end ConfigVetting.SchemaFiles
