import ConfigVetting.Text.Cut

/-! # Files

What is asked of the file system: the text of a file and the names in a directory. A path is a text whose
steps are separated by slashes; empty steps and steps `.` other than a first one do not count.
-/

namespace ConfigVetting

/-- A way to read files and directories by path. A failure gives the reason in the words of the system. -/
structure FileAccess (m : Type → Type) where
  /-- The text of a file. -/
  readText : String → m (Except String String)
  /-- The names in a directory, in any order. -/
  listNames : String → m (Except String (List String))

namespace Path

/-- Whether a path starts at the root. -/
def isAbsolute (path : String) : Bool :=
  Text.startsWith "/" path

/-- A path below another; one that starts at the root stays as it is. -/
def join (base path : String) : String :=
  if isAbsolute path || base.isEmpty then path
  else if (Text.beforeLast '/' base).isSome then base ++ path
  else base ++ "/" ++ path

/-- Whether a step can be left out. -/
def isIdle (step : String) : Bool :=
  step = "" || step = "."

/-- The steps of a relative path up to its last one, read from the end. -/
def beforeLastStep : List String → Option (List String)
  | [] => none
  | [first] => if first.isEmpty then none else some []
  | last :: earlier => if isIdle last then beforeLastStep earlier else some earlier

/-- Steps, read from the end, without the idle ones at the end; a first step `.` counts. -/
def withoutIdleEnd : List String → List String
  | [] => []
  | [first] => if first.isEmpty then [] else [first]
  | last :: earlier => if isIdle last then withoutIdleEnd earlier else last :: earlier

/-- The path without its last step, if it has one. -/
def parent? (path : String) : Option String :=
  match Text.afterStart "/" path with
  | none =>
    (beforeLastStep (Text.split "/" path).reverse).map fun earlier =>
      Text.joinWith "/" (withoutIdleEnd earlier).reverse
  | some below =>
    match (Text.split "/" below).reverse.dropWhile isIdle with
    | [] => none
    | _ :: earlier => some ("/" ++ Text.joinWith "/" (earlier.dropWhile isIdle).reverse)

/-- What follows the last dot in the name of a file, unless the name starts there. -/
def extension? (name : String) : Option String :=
  match (Text.split "." name).reverse with
  | [] | [_] => none
  | [last, first] => if first.isEmpty then none else some last
  | last :: _ => some last

end Path

end ConfigVetting
