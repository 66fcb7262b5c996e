import ConfigVetting.Pattern.Basic
import ConfigVetting.Pattern.Reader

/-! # An engine for patterns

Patterns are read as expressions over sets of characters, and refused when spelling them out would take too
much room. The room is an estimate by the number of states and ranges that an expression comes to.
-/

namespace ConfigVetting

namespace Pattern

/-- The room that a property takes, by the number of its ranges. -/
def Property.extent : Property → Nat
  | digit => 150
  | blank => 20
  | ascii => 1
  | hexDigit => 10
  | word => 1500
  | _ => 1400

/-- The room that a set takes. -/
def CharSet.extent : CharSet → Nat
  | empty => 1
  | range first last =>
    if first = last then (if first < 0x80 then 1 else if first < 0x800 then 2 else 4)
    else if last < 0x80 then 1 else 6
  | property p => p.extent
  | union left right | inter left right | diff left right | symmDiff left right =>
    left.extent + right.extent
  | compl set => set.extent + 10
  | folded set => 2 * set.extent

/-- The room that an expression takes with all its repetitions spelt out. -/
def Expr.extent : Expr → Nat
  | empty | look _ => 1
  | char set => set.extent
  | seq first second => first.extent + second.extent
  | alt left right => left.extent + right.extent + 2
  | repeated body least most =>
    match most with
    | none => body.extent * max least 1 + 2
    | some most => body.extent * most + (most - least) + 1

/-- The most room that a pattern may take. -/
def greatestExtent : Nat := 327680

/-- The test whether a pattern occurs in a value, if it is a pattern of bounded extent. -/
def occurrence? (pattern : String) : Option (String → Bool) :=
  match Expr.parse? pattern with
  | some expr => if expr.extent ≤ greatestExtent then some expr.occursIn else none
  | none => none

end Pattern

instance : PatternReader :=
  ⟨Pattern.occurrence?⟩

end ConfigVetting
