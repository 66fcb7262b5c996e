import ConfigVetting.Document.Basic
import ConfigVetting.Json.Printer
import ConfigVetting.Rows

/-! # Documents as JSON

A document is written as an object of its nodes by name. List instances and members of leaf-lists
stand in an array, as do several nodes of one name; a list instance is the object of its leaves.
-/

namespace ConfigVetting

variable {σ : Type}

/-- Values of nodes by the names of the nodes, the values of each name in order. -/
def groupByName (nodes : List (Label × Json)) : ByName (List (Label × Json)) :=
  nodes.foldl (fun groups (label, value) =>
    groups.alter label.name fun group => some (group.getD [] ++ [(label, value)])) ∅

/-- The value of the nodes of one name. -/
def groupJson (nodes : List (Label × Json)) : Json :=
  let repeated := nodes.any fun (label, _) => label.kind = .list || label.kind = .leafList
  match nodes, repeated with
  | [(_, value)], false => value
  | nodes, _ => .array (nodes.map Prod.snd)

/-- An object of the values of some nodes. -/
def siblingsJson (nodes : List (Label × Json)) : Json :=
  .object ((groupByName nodes).toList.map fun (name, group) => (name, groupJson group))

/-- The label of a node and its value. -/
def Node.labelled : Node σ → Label × Json :=
  fold fun _ label children =>
    match label.kind with
    | .leaf | .leafList => (label, Json.text? label.value)
    | _ => (label, siblingsJson children)

namespace Document

/-- The document as JSON. -/
def toJson (document : Document) : Json :=
  siblingsJson (document.roots.map Node.labelled)

/-- The document as one line of JSON. -/
def render (document : Document) : String :=
  document.toJson.render

end Document

end ConfigVetting
