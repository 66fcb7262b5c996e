import ConfigVetting.Rows
import ConfigVetting.Text.Cut

/-! # Patches of rows

What an edit changes in the fields of a row. A field is known by its plain name, whichever of its two
spellings it has: setting or removing it takes away both.
-/

namespace ConfigVetting

/-- The plain name of a field. -/
def baseName (name : String) : String :=
  (Text.beforeLast listMark name).getD name

namespace Fields

/-- Fields without one field in either of its spellings. -/
def without (fields : Fields) (name : String) : Fields :=
  (fields.erase (baseName name)).erase (listSpelling (baseName name))

/-- Whether fields are absent but for the placeholder. A delete with such fields removes the row. -/
def areNone (fields : Fields) : Bool :=
  fields.keys.all fun name => name = placeholder

/-- Fields with one field set in place of both of its spellings. -/
def set (fields : Fields) (name value : String) : Fields :=
  (fields.without name).insert name value

end Fields

/-- Fields to set and fields to remove, the latter by their plain names. -/
structure Patch where
  set : Fields := ∅
  removed : Names := ∅

namespace Patch

/-- The patch that sets fields. -/
def setting (fields : Fields) : Patch :=
  { set := fields }

/-- The patch that removes the fields of some names. -/
def removing (names : List String) : Patch :=
  { removed := names.foldl (fun removed name => removed.insert (baseName name)) ∅ }

/-- Fields after a patch. The placeholder is never set, and goes once another field is. -/
def apply (patch : Patch) (fields : Fields) : Fields :=
  let kept := patch.removed.toList.foldl Fields.without fields
  patch.set.toList.foldl (fun fields (name, value) =>
    if name = placeholder then fields
    else Fields.set (fields.erase placeholder) name value) kept

/-- The patch that does what two patches do one after the other. -/
def andThen (first second : Patch) : Patch :=
  let removing := second.removed.toList.foldl (fun (patch : Patch) name =>
    { set := Fields.without patch.set name, removed := patch.removed.insert name }) first
  second.set.toList.foldl (fun (patch : Patch) (name, value) =>
    { set := Fields.set patch.set name value, removed := patch.removed.erase (baseName name) })
    removing

end Patch

end ConfigVetting
