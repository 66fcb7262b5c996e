import ConfigVetting.Text.Cut

/-! # Whole words

A text has a name as a whole word exactly if the name stands somewhere in it with no word character right
before it and none right behind it (`ConfigVetting.Text.hasWord_iff`).
-/

namespace ConfigVetting.Text

/-- Whether a name stands in a text with no word character before it and none behind it. -/
def IsWordIn (name text : String) : Prop :=
  ∃ before after, text.toList = before ++ (name.toList ++ after) ∧
    (∀ c ∈ before.getLast?, isWordChar c = false) ∧ ∀ c ∈ after.head?, isWordChar c = false

variable {name text rest : List Char}

private theorem atWordEnd_iff : atWordEnd rest = true ↔ ∀ c ∈ rest.head?, isWordChar c = false := by
  cases rest <;> simp [atWordEnd]

/-- A name that starts a text ends a word there exactly if no word character is left behind it. -/
theorem isPrefixOf_and_atWordEnd_iff :
    (name.isPrefixOf text && atWordEnd (text.drop name.length)) = true ↔
      ∃ after, text = name ++ after ∧ ∀ c ∈ after.head?, isWordChar c = false := by
  rw [Bool.and_eq_true, List.isPrefixOf_iff_prefix, atWordEnd_iff]
  constructor
  · rintro ⟨⟨after, rfl⟩, ended⟩
    rw [List.drop_left] at ended
    exact ⟨after, rfl, ended⟩
  · rintro ⟨after, rfl, ended⟩
    rw [List.drop_left]
    exact ⟨List.prefix_append name after, ended⟩

/-- What comes before a word in a text ends without a word character; where nothing does, none came before
the text either. -/
theorem hasWordAfter_iff {inWord : Bool} :
    hasWordAfter name inWord text = true ↔
      ∃ before after, text = before ++ (name ++ after) ∧ (before = [] → inWord = false) ∧
        (∀ c ∈ before.getLast?, isWordChar c = false) ∧ ∀ c ∈ after.head?, isWordChar c = false := by
  induction text generalizing inWord with
  | nil =>
      rw [hasWordAfter, Bool.and_eq_true, List.isEmpty_iff, Bool.not_eq_true']
      constructor
      · rintro ⟨apart, rfl⟩
        exact ⟨[], [], rfl, fun _ => apart, nofun, nofun⟩
      · rintro ⟨before, after, whole, apart, _⟩
        obtain ⟨nothing, rest⟩ := List.append_eq_nil_iff.mp whole.symm
        exact ⟨apart nothing, (List.append_eq_nil_iff.mp rest).1⟩
  | cons c rest ih =>
      rw [hasWordAfter, Bool.or_eq_true, Bool.and_assoc, Bool.and_eq_true,
        isPrefixOf_and_atWordEnd_iff, Bool.not_eq_true', ih]
      constructor
      · rintro (⟨apart, after, whole, ended⟩ | ⟨before, after, rfl, apart, last, ended⟩)
        · exact ⟨[], after, whole, fun _ => apart, nofun, ended⟩
        · refine ⟨c :: before, after, rfl, nofun, ?_, ended⟩
          cases before with
          | nil => simpa using apart rfl
          | cons d before => rwa [List.getLast?_cons_cons]
      · rintro ⟨before, after, whole, apart, last, ended⟩
        cases before with
        | nil => exact Or.inl ⟨apart rfl, after, whole, ended⟩
        | cons d before =>
            obtain ⟨rfl, rfl⟩ := List.cons.inj whole
            refine Or.inr ⟨before, after, rfl, ?_, ?_, ended⟩
            · rintro rfl
              simpa using last
            · cases before with
              | nil => nofun
              | cons e before => rwa [List.getLast?_cons_cons] at last

/-- A text has a name as a whole word if the name stands in it, apart from other words. -/
theorem hasWord_iff {name text : String} : hasWord name text = true ↔ IsWordIn name text := by
  rw [hasWord, hasWordAfter_iff]
  simp only [implies_true, true_and]
  rfl

example : hasWord "PORT" "/PORTCHANNEL/PORT" = true := by decide

end ConfigVetting.Text
