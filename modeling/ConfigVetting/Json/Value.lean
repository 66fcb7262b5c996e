import ConfigVetting.Decimal.Binary64

/-! # JSON values

Objects keep their members in the order they were written, repeated names included;
`Json.settled` sorts the members by name and lets the last of a name win.
-/

namespace ConfigVetting

/-- A JSON number: whole numbers of 64 bits stay exact, all others have double precision. -/
inductive Number where
  | whole (value : Int)
  | real (value : Binary64)
  deriving DecidableEq, Repr

/-- A JSON value as it was written. -/
inductive Json where
  | null
  | bool (value : Bool)
  | number (value : Number)
  | text (value : String)
  | array (items : List Json)
  | object (members : List (String × Json))

namespace Json

instance : Inhabited Json := ⟨null⟩

/-- A whole number as a JSON value. -/
def int (value : Int) : Json :=
  number (.whole value)

/-- A natural number as a JSON value. -/
def nat (value : Nat) : Json :=
  int value

/-- An array of texts. -/
def texts (values : List String) : Json :=
  array (values.map text)

/-- A text, or null for none. -/
def text? : Option String → Json
  | none => null
  | some value => text value

/-- The last member of a name. -/
def member? (name : String) : List (String × Json) → Option Json
  | [] => none
  | (other, value) :: rest =>
    match member? name rest with
    | some later => some later
    | none => if other = name then some value else none

/-- Members with one more, in the place its name has in the order of names; a value that is there
already stays, since the members are inserted from the last to the first. -/
def insertMember (name : String) (value : Json) : List (String × Json) → List (String × Json)
  | [] => [(name, value)]
  | (other, old) :: rest =>
    if name < other then (name, value) :: (other, old) :: rest
    else if name = other then (other, old) :: rest
    else (other, old) :: insertMember name value rest

mutual

/-- The value with the members of every object sorted by name, the last of each name kept. -/
def settled : Json → Json
  | .array items => .array (settledItems items)
  | .object members => .object (settledMembers members)
  | value => value

/-- Array items, each settled. -/
def settledItems : List Json → List Json
  | [] => []
  | item :: rest => item.settled :: settledItems rest

/-- Members in the order of their names, each settled, the last of each name kept. -/
def settledMembers : List (String × Json) → List (String × Json)
  | [] => []
  | (name, value) :: rest => insertMember name value.settled (settledMembers rest)

end

end Json

end ConfigVetting
