import ConfigVetting.Json.Token

/-! # Reading JSON

Building a value from tokens. Arrays and objects that are still open lie on a stack; nesting deeper
than `Json.deepest` is refused.
-/

namespace ConfigVetting.Json

/-- How many arrays and objects may be open at once. -/
def deepest : Nat := 127

/-- An array or an object that is still open; items and members are held in reverse. -/
inductive Frame where
  | array (items : List Json)
  | object (members : List (String × Json)) (name : String)

/-- What may come next. -/
inductive Expected where
  | value
  | valueOrClose
  | nameOrClose (members : List (String × Json))
  | name (members : List (String × Json))
  | colon
  | commaOrClose
  | nothing (result : Json)

/-- What has been read so far. -/
structure Partway where
  stack : List Frame
  expected : Expected

/-- A finished value goes into the innermost open array or object, or is the result. -/
def Partway.finish (stack : List Frame) (value : Json) : Partway :=
  match stack with
  | [] => ⟨[], .nothing value⟩
  | .array items :: outer => ⟨.array (value :: items) :: outer, .commaOrClose⟩
  | .object members name :: outer =>
    ⟨.object ((name, value) :: members) name :: outer, .commaOrClose⟩

/-- The start of a value. -/
def Partway.begin (stack : List Frame) : Token → Option Partway
  | .null => some (.finish stack .null)
  | .bool value => some (.finish stack (.bool value))
  | .number value => some (.finish stack (.number value))
  | .text value => some (.finish stack (.text value))
  | .openArray =>
    if stack.length < deepest then some ⟨.array [] :: stack, .valueOrClose⟩ else none
  | .openObject => if stack.length < deepest then some ⟨stack, .nameOrClose []⟩ else none
  | _ => none

/-- One more token. -/
def Partway.step (state : Partway) (token : Token) : Option Partway :=
  match state.expected, token, state.stack with
  | .value, token, stack => Partway.begin stack token
  | .valueOrClose, .closeArray, .array items :: outer =>
    some (.finish outer (.array items.reverse))
  | .valueOrClose, token, stack => Partway.begin stack token
  | .nameOrClose members, .closeObject, stack => some (.finish stack (.object members.reverse))
  | .nameOrClose members, .text name, stack => some ⟨.object members name :: stack, .colon⟩
  | .name members, .text name, stack => some ⟨.object members name :: stack, .colon⟩
  | .colon, .colon, stack => some ⟨stack, .value⟩
  | .commaOrClose, .comma, .array items :: outer => some ⟨.array items :: outer, .value⟩
  | .commaOrClose, .closeArray, .array items :: outer =>
    some (.finish outer (.array items.reverse))
  | .commaOrClose, .comma, .object members _ :: outer => some ⟨outer, .name members⟩
  | .commaOrClose, .closeObject, .object members _ :: outer =>
    some (.finish outer (.object members.reverse))
  | _, _, _ => none

/-- The value that tokens make up, if they make up exactly one. -/
def ofTokens? (tokens : List Token) : Option Json :=
  match tokens.foldlM Partway.step ⟨[], .value⟩ with
  | some ⟨[], .nothing result⟩ => some result
  | _ => none

/-- The value that a text writes down, if it writes down exactly one. -/
def parse? (text : String) : Option Json :=
  (tokens? text).bind ofTokens?

end ConfigVetting.Json
