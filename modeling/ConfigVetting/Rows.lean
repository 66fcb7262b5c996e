import Std.Data.ExtTreeMap
import Std.Data.ExtTreeSet

/-! # Rows of flat tables

A row is a map from field names to texts; a table holds its rows by row key, and a set of tables
its tables by name. All maps are ordered by name, code point by code point, and two maps with the
same entries are equal.
-/

namespace ConfigVetting

/-- Values by name, in the order of the names. -/
abbrev ByName (β : Type) := Std.ExtTreeMap String β

/-- A set of names, in their order. -/
abbrev Names := Std.ExtTreeSet String

/-- Taking out a value that is there leaves fewer values. -/
theorem ByName.size_erase_lt {β : Type} {values : ByName β} {name : String}
    (inside : name ∈ values) : (values.erase name).size < values.size := by
  have : values.size ≠ 0 := fun zero => by
    rw [← Std.ExtTreeMap.eq_empty_iff_size_eq_zero] at zero
    simp [zero] at inside
  simp only [Std.ExtTreeMap.size_erase, Std.ExtTreeMap.contains_iff_mem.2 inside, ↓reduceIte]
  omega

/-- Taking out a name that is there leaves fewer names. -/
theorem Names.size_erase_lt {names : Names} {name : String} (inside : name ∈ names) :
    (names.erase name).size < names.size := by
  have : names.size ≠ 0 := fun zero => by
    rw [← Std.ExtTreeSet.eq_empty_iff_size_eq_zero] at zero
    simp [zero] at inside
  simp only [Std.ExtTreeSet.size_erase, Std.ExtTreeSet.contains_iff_mem.2 inside, ↓reduceIte]
  omega

/-- The fields of one row. -/
abbrev Fields := ByName String

/-- Rows of one table by row key. -/
abbrev KeyedRows := ByName Fields

/-- Rows of several tables by table name. -/
abbrev TableRows := ByName KeyedRows

/-- The field that stands in for the fields of a row without any. -/
def placeholder : String := "NULL"

/-- The last character of a field that holds a comma-separated list. -/
def listMark : Char := '@'

/-- The name of a field in its list spelling. -/
def listSpelling (name : String) : String :=
  name.push listMark

namespace TableRows

/-- Rows with one more row, in place of any of the same table and key. -/
def put (rows : TableRows) (table rowKey : String) (fields : Fields) : TableRows :=
  rows.alter table fun keyed => some ((keyed.getD ∅).insert rowKey fields)

/-- A single row of one table. -/
def single (table rowKey : String) (fields : Fields) : TableRows :=
  (∅ : TableRows).insert table ((∅ : KeyedRows).insert rowKey fields)

/-- The rows of one table; none if the table is not there. -/
def keyed (rows : TableRows) (table : String) : KeyedRows :=
  rows[table]?.getD ∅

end TableRows

end ConfigVetting
