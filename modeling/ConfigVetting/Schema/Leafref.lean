import ConfigVetting.Schema.KeyPattern
import ConfigVetting.Text.Blank

/-! # Leafref paths

A leafref path ends in the list of a table and a leaf in it, each with an optional module name and a
colon before it. Predicates in brackets may stand anywhere and are ignored.
-/

namespace ConfigVetting

/-- The leaf that a leafref path leads to. -/
structure LeafrefTarget where
  table : String
  leaf : String
  deriving DecidableEq, Repr

namespace LeafrefTarget

/-- A path without its predicates, read in an open bracket if `opened` holds the characters since
then in reverse. A bracket that is never closed stays. -/
def withoutPredicates (opened : Option (List Char)) : List Char → List Char
  | [] =>
    match opened with
    | none => []
    | some characters => characters.reverse
  | c :: rest =>
    match opened with
    | none =>
      if c = '[' then withoutPredicates (some [c]) rest else c :: withoutPredicates none rest
    | some characters =>
      if c = ']' then withoutPredicates none rest
      else withoutPredicates (some (c :: characters)) rest

/-- The characters before and after the last slash. -/
def cutAtLastSlash (text : List Char) : Option (List Char × List Char) :=
  match text.reverse.dropWhile (· ≠ '/') with
  | [] => none
  | _ :: before => some (before.reverse, (text.reverse.takeWhile (· ≠ '/')).reverse)

/-- The leaf named by the last step of a path. -/
def leafName (step : List Char) : Option (List Char) :=
  match Text.cutChars [':'] step with
  | none => if isName step then some step else none
  | some (owner, name) => if isName owner && isName name then some name else none

/-- The ending of the name of the list that holds the rows of a table. -/
def listEnding : List Char := ['_', 'L', 'I', 'S', 'T']

/-- The table whose list is the last step of a path. -/
def tableName (path : List Char) : Option (List Char) :=
  (Text.afterStartChars listEnding.reverse path.reverse).bind fun rest =>
    let name := (rest.takeWhile isNameChar).reverse
    if name.isEmpty then none else some name

/-- The target of a path, if it ends as a leafref path does. -/
def parse? (path : String) : Option LeafrefTarget := do
  let (before, step) ← cutAtLastSlash (withoutPredicates none (Text.trim path).toList)
  let table ← tableName before
  let leaf ← leafName step
  some ⟨String.ofList table, String.ofList leaf⟩

end LeafrefTarget

end ConfigVetting
