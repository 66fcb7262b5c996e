import ConfigVetting.Text.Cut

/-! # Key patterns

A key pattern is the name of a table and the components of its row keys, each after a delimiter. A
component is written as its name in braces; a repeating one, which stands for a comma-separated list
of values, as the braces and a comma in parentheses with a star after them.
-/

namespace ConfigVetting

/-- One component of a row key. -/
structure KeySegment where
  name : String
  /-- Whether the component lists values, one list instance for each. -/
  repeating : Bool
  deriving DecidableEq, Repr

/-- Whether a character may stand in the name of a component or of a leaf on a path. -/
def isNameChar (c : Char) : Bool :=
  c.isAlphanum || c = '_' || c = '-'

/-- Whether characters make up a name. -/
def isName (text : List Char) : Bool :=
  !text.isEmpty && text.all isNameChar

namespace KeySegment

/-- The characters between a beginning and an end, if they are there and apart. -/
def between (start stop text : List Char) : Option (List Char) :=
  (Text.afterStartChars start text).bind fun rest =>
    (Text.afterStartChars stop.reverse rest.reverse).map List.reverse

/-- A component as a pattern writes it. -/
def parse? (part : String) : Option KeySegment :=
  match (between ['\x7b'] ['\x7d'] part.toList).filter isName with
  | some name => some ⟨String.ofList name, false⟩
  | none =>
    match (between ['(', '\x7b'] ['\x7d', ',', ')', '*'] part.toList).filter isName with
    | some name => some ⟨String.ofList name, true⟩
    | none => none

/-- The text of a component in a pattern. -/
def render (segment : KeySegment) : String :=
  if segment.repeating then "(\x7b" ++ segment.name ++ "\x7d,)*"
  else "\x7b" ++ segment.name ++ "\x7d"

end KeySegment

namespace KeyPattern

/-- What is wrong with a key pattern. -/
inductive Fault where
  | emptyDelimiter
  | otherStart (pattern : String)
  | unrecognised (part : String)
  | repeated (name : String)
  | noComponents
  deriving DecidableEq, Repr

/-- The wording of a fault. -/
def Fault.message : Fault → String
  | emptyDelimiter => "empty key delimiter"
  | otherStart pattern => s!"'{pattern}' must start with the table name"
  | unrecognised part => s!"unrecognised key component '{part}'"
  | repeated name => s!"key component '{name}' repeated"
  | noComponents => "no key components"

/-- The components written by the parts of a pattern, read after those in `earlier`. -/
def segments (earlier : List KeySegment) : List String → Except Fault (List KeySegment)
  | [] => if earlier.isEmpty then .error .noComponents else .ok earlier
  | part :: rest =>
    match KeySegment.parse? part with
    | none => .error (.unrecognised part)
    | some segment =>
      if earlier.any fun other => other.name = segment.name then .error (.repeated segment.name)
      else segments (earlier ++ [segment]) rest

/-- The components of the row keys of a table. -/
def parse (table pattern delimiter : String) : Except Fault (List KeySegment) :=
  if delimiter = "" then .error .emptyDelimiter
  else
    match Text.split delimiter pattern with
    | name :: parts => if name = table then segments [] parts else .error (.otherStart pattern)
    | [] => .error (.otherStart pattern)

/-- The pattern of a table with the given components. -/
def render (table delimiter : String) (segments : List KeySegment) : String :=
  Text.joinWith delimiter (table :: segments.map KeySegment.render)

end KeyPattern

end ConfigVetting
