/-! # Runs of code points

A property of characters as a list of runs: consecutive code points from zero on that have the same
label. A table is written as text, the length of each run and then its label.
-/

namespace ConfigVetting.Unicode

/-- The first code point of each run with its label, in order. -/
abbrev Runs := Array (Nat × String)

namespace Runs

/-- A table that is partly read: the runs before, the first code point of the next run, its length
so far and the characters of its label in reverse. -/
structure Reading where
  done : Runs
  start : Nat
  length : Nat
  label : List Char

/-- The table with the run that is being read. -/
def Reading.finish (state : Reading) : Reading :=
  match state.label with
  | [] => state
  | label => ⟨state.done.push (state.start, String.ofList label.reverse),
      state.start + state.length, 0, []⟩

/-- One more character: a digit after a label starts the next run. -/
def Reading.step (state : Reading) (c : Char) : Reading :=
  if c.isDigit then
    let state := state.finish
    { state with length := 10 * state.length + (c.toNat - '0'.toNat) }
  else { state with label := c :: state.label }

/-- The table written on some lines. -/
def ofLines (lines : List String) : Runs :=
  let start : Reading := ⟨#[], 0, 0, []⟩
  ((lines.flatMap String.toList).foldl Reading.step start).finish.done

/-- The label of the last run that starts at or before a code point, among those from index `low`
to below index `high`. -/
def search (runs : Runs) (code low high : Nat) : Nat → String
  | 0 => ""
  | steps + 1 =>
    if high ≤ low + 1 then
      match runs[low]? with
      | some (_, label) => label
      | none => ""
    else
      let middle := (low + high) / 2
      match runs[middle]? with
      | some (start, _) =>
        if start ≤ code then search runs code middle high steps
        else search runs code low middle steps
      | none => ""

/-- The label of a character. -/
def label (runs : Runs) (c : Char) : String :=
  search runs c.toNat 0 runs.size (runs.size + 1)

end Runs

end ConfigVetting.Unicode
