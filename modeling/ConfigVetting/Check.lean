import ConfigVetting.Document.Lookup
import ConfigVetting.Edit
import ConfigVetting.Rejection
import ConfigVetting.Schema.Index
import ConfigVetting.Text.Numeral

/-! # Checks of documents

The list instances of a subject are held against the schema: their fields, the types and patterns of
the values, leafrefs into the subject or the data it depends on, and mandatory fields. The first
violation rejects the subject. Must rules are not evaluated.
-/

namespace ConfigVetting

namespace Check

variable {σ τ : Type}

/-- The values of a list instance by field. -/
abbrev Values := ByName (List String)

/-- The list instance that is checked. -/
structure Place where
  table : TableSchema
  keyComponents : List String

namespace Place

/-- The place of a list instance. -/
def ofNode (table : TableSchema) (node : Node σ) : Place :=
  let key := node.key.getD ""
  ⟨table, (table.splitKey key).getD [key]⟩

/-- A rejection at a place. -/
def reject (place : Place) (code : ReturnCode) (message : String) : Rejection :=
  (Rejection.ofMessage code message).onRow place.table.name place.keyComponents

/-- A rejection of a value of a leaf. -/
def rejectValue (place : Place) (leaf : LeafDecl) (code : ReturnCode) (message value : String) :
    Rejection :=
  ((place.reject code message).onField leaf.name value).withConstraint leaf.errorMessage
    leaf.errorTag

/-- The values with those of one child of the list instance added. -/
def addValues (place : Place) (values : Values) (child : Node σ) : Except Rejection Values :=
  let name := child.name
  let value := child.value.getD ""
  match child.kind with
  | .leaf | .leafList =>
    if !place.table.isKey name && (place.table.leaf? name).isNone then
      .error ((place.reject .undeclaredField
        s!"Unknown field '{name}' in table '{place.table.name}'").onField name value)
    else
      let members := values[name]?.getD []
      if child.kind = .leaf && !place.table.isLeafList name && !members.isEmpty then
        .error ((place.reject .repeatedField s!"Field '{name}' given more than once").onField
          name value)
      else .ok (values.insert name (members ++ [value]))
  | .list =>
    match place.table.mapLeaves with
    | none => .ok values
    | some (_, valueLeaf) =>
      match child.leafValues valueLeaf with
      | [] => .ok values
      | entries => .ok (values.insert valueLeaf (values[valueLeaf]?.getD [] ++ entries))
  | .module | .container =>
    .error (.internal s!"Unexpected node '{name}' inside list instance of '{place.table.name}'")

/-- All values of a list instance, if each of its fields may have them. -/
def values (place : Place) (node : Node σ) : Except Rejection Values :=
  node.children.foldlM place.addValues ∅

/-- A bound of a range as a message shows it. -/
def boundText (absent : String) : Option Int → String
  | none => absent
  | some bound => toString bound

/-- Checks that a value is of the type of its leaf. -/
def checkType (place : Place) (leaf : LeafDecl) (value : String) : Except Rejection Unit :=
  match leaf.type with
  | .string => .ok ()
  | .bool =>
    if value = "true" || value = "false" then .ok ()
    else .error (place.rejectValue leaf .wrongType
      s!"Field '{leaf.name}' expects true or false" value)
  | .int min max =>
    match Text.int64? value with
    | none => .error (place.rejectValue leaf .wrongType
        s!"Field '{leaf.name}' expects an integer" value)
    | some number =>
      if (min.any fun bound => number < bound) || (max.any fun bound => bound < number) then
        let least := boundText "min" min
        let greatest := boundText "max" max
        .error (place.rejectValue leaf .outOfRange
          s!"Field '{leaf.name}' value {number} outside range {least}..{greatest}" value)
      else .ok ()
  | .enum choices =>
    if choices.contains value then .ok ()
    else
      let listed := Text.joinWith ", " choices
      .error (place.rejectValue leaf .notInEnum
        s!"Field '{leaf.name}' must be one of: {listed}" value)

/-- Checks that a value matches the pattern of its leaf. -/
def checkPattern (place : Place) (leaf : LeafSchema) (value : String) : Except Rejection Unit :=
  match leaf.pattern with
  | none => .ok ()
  | some pattern =>
    if pattern.accepts value then .ok ()
    else
      let text := leaf.decl.pattern.getD ""
      .error (place.rejectValue leaf.decl .patternMismatch
        s!"Field '{leaf.decl.name}' does not match pattern '{text}'" value)

/-- Checks that a value stands in one of the leaves that its leaf refers to. -/
def checkLeafref (place : Place) (holds : LeafrefTarget → String → Bool) (leaf : LeafSchema)
    (value : String) : Except Rejection Unit :=
  if leaf.targets.isEmpty || value.isEmpty || leaf.targets.any fun target => holds target value then
    .ok ()
  else
    let wanted := Text.joinWith " or " (leaf.targets.map fun target =>
      target.table ++ "." ++ target.leaf)
    .error (place.rejectValue leaf.decl .dependentDataMissing
      s!"No entry in {wanted} for value '{value}'" value)

/-- Checks one value of a leaf. -/
def checkValue (place : Place) (holds : LeafrefTarget → String → Bool) (leaf : LeafSchema)
    (value : String) : Except Rejection Unit := do
  place.checkType leaf.decl value
  place.checkPattern leaf value
  place.checkLeafref holds leaf value

/-- Checks all values of declared leaves. -/
def checkValues (place : Place) (holds : LeafrefTarget → String → Bool) (values : Values) :
    Except Rejection Unit :=
  values.toList.forM fun (name, members) =>
    match place.table.leaf? name with
    | none => .ok ()
    | some leaf => members.forM (place.checkValue holds leaf)

/-- The rejection of a mandatory leaf's absence. -/
def rejectAbsence (place : Place) (leaf : LeafDecl) (message : String) : Rejection :=
  place.rejectValue leaf .mandatoryDataMissing message ""

/-- Checks that no mandatory field is among those that a delete takes away. -/
def checkKept (place : Place) (values : Values) : Except Rejection Unit :=
  values.keys.forM fun name =>
    match place.table.leaf? name with
    | none => .ok ()
    | some leaf =>
      if leaf.decl.mandatory && !place.table.isKey name then
        .error (place.rejectAbsence leaf.decl s!"Mandatory field '{name}' cannot be deleted")
      else .ok ()

/-- Checks that every mandatory field has a value. -/
def checkComplete (place : Place) (values : Values) : Except Rejection Unit :=
  place.table.leaves.values.forM fun leaf =>
    if leaf.decl.mandatory && leaf.decl.name ∉ values then
      .error (place.rejectAbsence leaf.decl s!"Mandatory field '{leaf.decl.name}' is missing")
    else .ok ()

/-- Checks a list instance for an operation. -/
def check (place : Place) (holds : LeafrefTarget → String → Bool) (operation : Operation)
    (node : Node σ) : Except Rejection Unit := do
  let values ← place.values node
  match operation with
  | .delete => place.checkKept values
  | .create => do
    place.checkValues holds values
    place.checkComplete values
  | _ => place.checkValues holds values

end Place

/-- Whether the leaf of a target holds a value in a subject or in the data it depends on. -/
def holdsIn (subject : Forest σ) (dependent : Option (Forest τ)) (target : LeafrefTarget)
    (value : String) : Bool :=
  subject.containsValue target.table target.leaf value ||
    dependent.any fun data => data.containsValue target.table target.leaf value

/-- Checks all list instances of a container. -/
def checkContainer (schema : Schema) (holds : LeafrefTarget → String → Bool)
    (operation : Operation) (container : Node σ) : Except Rejection Unit :=
  match schema.table? container.name with
  | none => .error (.internal s!"Subject holds unknown table '{container.name}'")
  | some table => container.children.forM fun node =>
      (Place.ofNode table node).check holds operation node

end Check

/-- Checks a subject for an operation, with the data that it depends on. -/
def Schema.check {σ τ : Type} (schema : Schema) (subject : Forest σ)
    (dependent : Option (Forest τ)) (operation : Operation) : Except Rejection Unit :=
  if operation = .none then .ok ()
  else (subject.flatMap Node.children).forM
    (Check.checkContainer schema (Check.holdsIn subject dependent) operation)

end ConfigVetting
