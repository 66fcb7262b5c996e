import ConfigVetting.Text.Cut

/-! # Command-line arguments

The commands and their options. An option is given at most once, with a non-empty value, either after
an equals sign or as the next argument; that one may not look like an option.
-/

namespace ConfigVetting.CommandLine

/-- What the program can be told to do. -/
inductive Command where
  /-- Summarise the tables of the schema. -/
  | checkSchema (config : String)
  /-- Vet batches of edits, one on each line of the input. -/
  | validate (config : String) (data : Option String)
  deriving DecidableEq, Repr

/-- What the arguments ask for. -/
inductive Request where
  | run (command : Command)
  | version
  | help
  /-- The arguments make no sense. -/
  | misuse
  deriving DecidableEq, Repr

/-- The configuration file where none is named. -/
def usualConfig : String := "./cvl.json"

/-- Options by name, or what is asked for instead. -/
abbrev Options := Except Request (List (String × String))

/-- Whether an argument looks like an option. -/
def looksLikeOption (argument : String) : Bool :=
  Text.startsWith "-" argument && argument ≠ "-"

/-- The options so far with one more. -/
def addOption (allowed : List String) (found : List (String × String)) (name value : String) :
    Options :=
  if allowed.contains name && !value.isEmpty && (found.lookup name).isNone then
    .ok (found ++ [(name, value)])
  else .error .misuse

/-- The options in some arguments, after those found before. -/
def readOptions (allowed : List String) (found : List (String × String)) : List String → Options
  | [] => .ok found
  | argument :: rest =>
    if argument = "--" then (if rest.isEmpty then .ok found else .error .misuse)
    else
      match Text.afterStart "--" argument with
      | none => .error (if Text.startsWith "-h" argument then .help else .misuse)
      | some option =>
        if option = "help" then .error .help
        else
          match Text.cut "=" option, rest with
          | some (name, value), rest => do
            readOptions allowed (← addOption allowed found name value) rest
          | none, value :: rest => do
            if looksLikeOption value then throw .misuse
            readOptions allowed (← addOption allowed found option value) rest
          | none, [] => .error .misuse

/-- The request of a command with some options. -/
def requestOf (options : Options) (command : List (String × String) → Command) : Request :=
  match options with
  | .ok found => .run (command found)
  | .error request => request

/-- The configuration file that options name. -/
def configOf (found : List (String × String)) : String :=
  (found.lookup "config").getD usualConfig

/-- What arguments ask for. -/
def parse : List String → Request
  | [] => .misuse
  | "check-schema" :: rest =>
    requestOf (readOptions ["config"] [] rest) fun found => .checkSchema (configOf found)
  | "validate" :: rest =>
    requestOf (readOptions ["config", "data"] [] rest) fun found =>
      .validate (configOf found) (found.lookup "data")
  | ["help"] | ["help", "check-schema"] | ["help", "validate"] | ["help", "help"] => .help
  | argument :: _ =>
    if argument = "--version" || Text.startsWith "-V" argument then .version
    else if argument = "--help" || Text.startsWith "-h" argument then .help
    else .misuse

/-- The name and version of the program. -/
def versionText : String := "cvl 0.1.0"

/-- How the program is used. -/
def helpText : String :=
  "Usage: cvl check-schema [--config FILE]\n       cvl validate [--config FILE] [--data FILE]"

end ConfigVetting.CommandLine
