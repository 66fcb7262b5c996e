/-! # Patterns of leaf values

A pattern must match a whole value. It is put between anchors as text, so what it writes is read together
with them. How such a text is read is left to an engine.
-/

namespace ConfigVetting

/-- A pattern between its anchors. -/
structure Pattern where
  text : String
  /-- Whether a value matches. -/
  accepts : String → Bool

/-- An engine that reads patterns: the test whether a pattern occurs in a value, if it is one. -/
class PatternReader where
  occurrence? : String → Option (String → Bool)

namespace Pattern

/-- The text of a pattern between anchors. -/
def anchored (pattern : String) : String :=
  "^(?:" ++ pattern ++ ")$"

/-- The pattern that a text writes down, if it writes one. -/
def parse? [PatternReader] (pattern : String) : Option Pattern :=
  (PatternReader.occurrence? (anchored pattern)).map fun accepts => ⟨anchored pattern, accepts⟩

end Pattern

end ConfigVetting
