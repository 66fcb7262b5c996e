import ConfigVetting.Edit
import ConfigVetting.Staging.Patch

/-! # States of staged rows

What becomes of a row by the edits of a session: it is there with known fields, it has changes laid
over what is stored, or it is gone.
-/

namespace ConfigVetting

/-- The net effect of some edits on a row. -/
inductive RowState where
  /-- The row is there with exactly these fields. -/
  | present (fields : Fields)
  /-- The stored row with changes laid over it. -/
  | overlay (patch : Patch)
  /-- The row is gone. -/
  | deleted

namespace RowState

/-- The effect of one edit. -/
def ofEdit (operation : Operation) (fields : Fields) : RowState :=
  match operation with
  | .create => present fields
  | .update | .none => overlay (.setting fields)
  | .delete => if fields.areNone then deleted else overlay (.removing fields.keys)

/-- The effect of two effects one after the other. -/
def andThen : RowState → RowState → RowState
  | _, present fields => present fields
  | _, deleted => deleted
  | present fields, overlay patch => present (patch.apply fields)
  | overlay first, overlay second => overlay (first.andThen second)
  | deleted, overlay _ => deleted

/-- Whether the row is there, if it was stored or created. -/
def isThere : RowState → Bool
  | present _ | overlay _ => true
  | deleted => false

/-- Whether the row was created. -/
def isPresent : RowState → Bool
  | present _ => true
  | _ => false

/-- The row after an effect on what is stored. -/
def apply (stored : Option Fields) : RowState → Option Fields
  | present fields => some fields
  | overlay patch => stored.map patch.apply
  | deleted => none

end RowState

end ConfigVetting
