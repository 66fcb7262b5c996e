import ConfigVetting.Rejection
import ConfigVetting.Schema.Table
import ConfigVetting.Text.Blank

/-! # Values of rows and keys

What the texts of a flat row stand for: a value may be written as a reference to a row in another
table, and a list as its members between commas. A row key with repeating components stands for one
list instance for each choice of a member of every such component.
-/

namespace ConfigVetting

/-- The key in a reference to a row, written as a table, a bar and the key in brackets; any other
text is itself. -/
def referenced (value : String) : String :=
  match (KeySegment.between ['['] [']'] value.toList).bind (Text.cutChars ['|']) with
  | some (table, key) =>
    if isName table && !key.contains '\n' then String.ofList key else value
  | none => value

/-- The members of a list written with commas, trimmed, without the empty ones. -/
def listMembers (value : String) : List String :=
  ((Text.split "," value).map Text.trim).filter fun member => !member.isEmpty

/-- The values that a component of a row key stands for. -/
def KeySegment.values (segment : KeySegment) (component : String) : List String :=
  if segment.repeating then listMembers component else [component]

/-- All ways of choosing one of each of several lists, those of the first list slowest. -/
def choices {α : Type} : List (List α) → List (List α)
  | [] => [[]]
  | values :: rest => values.flatMap fun value => (choices rest).map fun others => value :: others

namespace TableSchema

/-- The components of a row key, or the rejection of the key. -/
def components (table : TableSchema) (rowKey : String) : Except Rejection (List String) :=
  match table.splitKey rowKey with
  | some components => .ok components
  | none => .error ((Rejection.invalidKey rowKey
      s!"expected {table.segments.length} component(s) for pattern '{table.keyPattern}'").onRow
        table.name [])

/-- The key components of each list instance that a row key stands for. -/
def expandKey (table : TableSchema) (rowKey : String) : Except Rejection (List (List String)) := do
  let components ← table.components rowKey
  let values ← (table.segments.zip components).mapM fun (segment, component) =>
    match segment.values component with
    | [] => .error ((Rejection.invalidKey rowKey s!"empty value list for '{segment.name}'").onRow
        table.name components)
    | values => .ok values
  return choices values

/-- The key of the list instance with some key components. -/
def instanceKey (table : TableSchema) (components : List String) : String :=
  Text.joinWith table.keyDelimiter components

end TableSchema

end ConfigVetting
