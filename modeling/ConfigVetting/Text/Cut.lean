/-! # Cutting texts

Cutting a text at a separator, splitting it into parts, taking a known beginning or end off it, and
finding a name where it stands as a whole word. Each function is written on lists of characters and
lifted to `String`; a separator is meant to be non-empty.
-/

namespace ConfigVetting.Text

/-- The characters before and after the first occurrence of a separator. -/
def cutChars (separator : List Char) : List Char → Option (List Char × List Char)
  | [] => if separator = [] then some ([], []) else none
  | c :: rest =>
    if separator.isPrefixOf (c :: rest) then some ([], (c :: rest).drop separator.length)
    else (cutChars separator rest).map fun (before, after) => (c :: before, after)

/-- The parts of a text between the first `cuts` occurrences of a separator. -/
def splitChars (separator : List Char) : Nat → List Char → List (List Char)
  | 0, text => [text]
  | cuts + 1, text =>
    match cutChars separator text with
    | none => [text]
    | some (before, after) => before :: splitChars separator cuts after

/-- The texts before and after the first occurrence of a separator. -/
def cut (separator text : String) : Option (String × String) :=
  (cutChars separator.toList text.toList).map fun (before, after) =>
    (String.ofList before, String.ofList after)

/-- The parts of a text between the occurrences of a separator, found from left to right. -/
def split (separator text : String) : List String :=
  (splitChars separator.toList text.toList.length text.toList).map String.ofList

/-- At most `count` parts of a text: the last one keeps any surplus separators. -/
def splitAtMost (count : Nat) (separator text : String) : List String :=
  match count with
  | 0 => []
  | cuts + 1 => (splitChars separator.toList cuts text.toList).map String.ofList

/-- Parts written one after another with a separator between them. -/
def joinWith (separator : String) (parts : List String) : String :=
  separator.intercalate parts

/-- The characters after a known beginning. -/
def afterStartChars : List Char → List Char → Option (List Char)
  | [], text => some text
  | _ :: _, [] => none
  | c :: start, d :: text => if c = d then afterStartChars start text else none

/-- The text after a known beginning. -/
def afterStart (start text : String) : Option String :=
  (afterStartChars start.toList text.toList).map String.ofList

/-- Whether a text has a known beginning. -/
def startsWith (start text : String) : Bool :=
  start.toList.isPrefixOf text.toList

/-- The text before a known last character. -/
def beforeLast (last : Char) (text : String) : Option String :=
  match text.toList.reverse with
  | [] => none
  | c :: rest => if c = last then some (String.ofList rest.reverse) else none

/-- Cutting loses only the separator. -/
theorem eq_append_of_cutChars {separator text before after : List Char}
    (found : cutChars separator text = some (before, after)) :
    text = before ++ separator ++ after := by
  induction text generalizing before with
  | nil =>
    simp only [cutChars] at found
    split at found <;> simp_all
  | cons c rest ih =>
    simp only [cutChars] at found
    split at found
    · next start =>
      obtain ⟨tail, eq⟩ := List.isPrefixOf_iff_prefix.1 start
      simp only [Option.some.injEq, Prod.mk.injEq] at found
      obtain ⟨rfl, rfl⟩ := found
      simp [← eq]
    · obtain ⟨⟨first, second⟩, foundRest, eq⟩ := Option.map_eq_some_iff.1 found
      simp only [Prod.mk.injEq] at eq
      obtain ⟨rfl, rfl⟩ := eq
      simp [ih foundRest]

/-- What follows a beginning is the text without it. -/
theorem afterStartChars_eq_some_iff {start text rest : List Char} :
    afterStartChars start text = some rest ↔ text = start ++ rest := by
  induction start generalizing text with
  | nil => simp [afterStartChars, eq_comm]
  | cons c start ih =>
    cases text with
    | nil => simp [afterStartChars]
    | cons d text => by_cases same : c = d <;> simp [afterStartChars, same, ih, eq_comm]

/-- Splitting makes at least one part. -/
theorem splitChars_ne_nil (separator : List Char) (cuts : Nat) (text : List Char) :
    splitChars separator cuts text ≠ [] := by
  cases cuts with
  | zero => simp [splitChars]
  | succ cuts => simp only [splitChars]; split <;> simp

/-- Putting the separator back between the parts gives the text again. -/
theorem intercalate_splitChars (separator : List Char) (cuts : Nat) (text : List Char) :
    separator.intercalate (splitChars separator cuts text) = text := by
  induction cuts generalizing text with
  | zero => simp [splitChars]
  | succ cuts ih =>
    simp only [splitChars]
    split
    · simp
    · next before after found =>
      have parts := splitChars_ne_nil separator cuts after
      obtain ⟨part, others, eq⟩ := List.exists_cons_of_ne_nil parts
      have rest := ih after
      rw [eq] at rest ⊢
      rw [eq_append_of_cutChars found, ← rest]
      simp [List.intercalate]

/-! ## Whole words

A name stands as a whole word where neither the character before it nor the one after it is a letter, a
digit or an underscore of ASCII.
-/

/-- Whether a character continues a word. -/
def isWordChar (c : Char) : Bool :=
  c.isAlphanum || c = '_'

/-- Whether no word character comes next. -/
def atWordEnd : List Char → Bool
  | [] => true
  | c :: _ => !isWordChar c

/-- Whether a text holds a name as a whole word, given whether a word character came before it. -/
def hasWordAfter (name : List Char) (inWord : Bool) : List Char → Bool
  | [] => !inWord && name.isEmpty
  | c :: rest =>
    (!inWord && name.isPrefixOf (c :: rest) && atWordEnd ((c :: rest).drop name.length)) ||
      hasWordAfter name (isWordChar c) rest

/-- Whether a text holds a name as a whole word. -/
def hasWord (name text : String) : Bool :=
  hasWordAfter name.toList false text.toList

end ConfigVetting.Text
