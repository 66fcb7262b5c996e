import ConfigVetting.Text.Blank
import ConfigVetting.Text.Cut
import Mathlib.Data.List.Infix
import Mathlib.Data.List.TakeWhile

/-! # Beginnings and ends of texts

What is told of a text by its beginning or by its last character, and what trimming leaves of it: all but
the blanks at either end (`ConfigVetting.Text.trimChars_surrounded`).
-/

namespace ConfigVetting.Text

/-- What follows the start of a text, if it starts that way. -/
theorem afterStart_eq_some_iff {start text rest : String} :
    afterStart start text = some rest ↔ text = start ++ rest := by
  simp only [afterStart, Option.map_eq_some_iff, afterStartChars_eq_some_iff]
  constructor
  · rintro ⟨characters, split, rfl⟩
    rw [← String.toList_inj, split, String.toList_append, String.toList_ofList]
  · rintro rfl
    exact ⟨rest.toList, String.toList_append, String.ofList_toList⟩

theorem startsWith_iff_exists {start text : String} :
    startsWith start text = true ↔ ∃ rest, text = start ++ rest := by
  rw [startsWith, List.isPrefixOf_iff_prefix]
  constructor
  · rintro ⟨rest, whole⟩
    refine ⟨String.ofList rest, ?_⟩
    rw [← String.toList_inj, String.toList_append, String.toList_ofList, whole]
  · rintro ⟨rest, rfl⟩
    rw [String.toList_append]
    exact List.prefix_append _ _

/-- The last character is split off exactly where the text ends in it. -/
theorem beforeLast_eq_some_iff {last : Char} {text before : String} :
    beforeLast last text = some before ↔ text = before.push last := by
  rw [← String.toList_inj, String.toList_push]
  unfold beforeLast
  cases reversed : text.toList.reverse with
  | nil =>
      have empty : text.toList = [] := List.reverse_eq_nil_iff.mp reversed
      simp [empty]
  | cons c rest =>
      have whole : text.toList = rest.reverse ++ [c] := List.reverse_eq_cons_iff.mp reversed
      rw [whole]
      by_cases same : c = last
      · subst same
        simp only [↓reduceIte, Option.some.injEq, List.append_cancel_right_eq]
        constructor
        · rintro rfl
          exact String.toList_ofList.symm
        · intro equal
          rw [equal, String.ofList_toList]
      · simp only [same, ↓reduceIte, reduceCtorEq, false_iff]
        intro equal
        exact same (List.singleton_inj.mp (List.append_inj' equal rfl).2)

/-- A text is taken apart behind its first characters of a class where the next one is not of it. -/
theorem takeWhile_and_dropWhile_iff {inside : Char → Bool} {text run rest : List Char} :
    text.takeWhile inside = run ∧ text.dropWhile inside = rest ↔
      text = run ++ rest ∧ (∀ c ∈ run, inside c) ∧ ∀ c ∈ rest.head?, inside c = false := by
  constructor
  · rintro ⟨rfl, rfl⟩
    refine ⟨List.takeWhile_append_dropWhile.symm, fun c => List.mem_takeWhile_imp, fun c first => ?_⟩
    have outside := List.head?_dropWhile_not inside text
    rw [Option.mem_def.mp first] at outside
    exact outside
  · rintro ⟨rfl, within, without⟩
    rw [List.takeWhile_append_of_pos within, List.dropWhile_append_of_pos within]
    cases rest with
    | nil => simp
    | cons c rest => simp [without c rfl]

/-- A text is taken apart before its last characters of a class where the one before is not of it. -/
theorem lastRun_iff {inside : Char → Bool} {text before run : List Char} :
    text.reverse.takeWhile inside = run.reverse ∧ text.reverse.dropWhile inside = before.reverse ↔
      text = before ++ run ∧ (∀ c ∈ run, inside c) ∧ ∀ c ∈ before.getLast?, inside c = false := by
  rw [takeWhile_and_dropWhile_iff, ← List.reverse_append, List.reverse_inj, List.head?_reverse]
  simp only [List.mem_reverse]

/-- Trimming leaves a piece of a text. -/
theorem trimChars_infix (text : List Char) : trimChars text <:+: text := by
  have front : text.dropWhile isBlank <:+: text := (List.dropWhile_suffix isBlank).isInfix
  have back : (text.dropWhile isBlank).reverse.dropWhile isBlank <:+:
      (text.dropWhile isBlank).reverse := (List.dropWhile_suffix isBlank).isInfix
  have kept := List.reverse_infix.mpr back
  rw [List.reverse_reverse] at kept
  exact kept.trans front

/-- No blank is dropped from a text that does not start with one. -/
theorem dropWhile_eq_self {text : List Char} (outside : ∀ c ∈ text.head?, isBlank c = false) :
    text.dropWhile isBlank = text := by
  cases text with
  | nil => rfl
  | cons c rest => simp [outside c rfl]

/-- A trimmed text does not start with a blank. -/
theorem head?_trimChars (text : List Char) : ∀ c ∈ (trimChars text).head?, isBlank c = false := by
  intro c first
  rw [trimChars, List.head?_reverse] at first
  obtain ⟨dropped, whole⟩ : (text.dropWhile isBlank).reverse.dropWhile isBlank <:+
      (text.dropWhile isBlank).reverse := List.dropWhile_suffix isBlank
  have last : (text.dropWhile isBlank).reverse.getLast? = some c := by
    rw [← whole, List.getLast?_append, first]
    rfl
  rw [List.getLast?_reverse] at last
  exact head?_dropWhile_isBlank text c last

/-- A trimmed text does not end with a blank. -/
theorem getLast?_trimChars (text : List Char) :
    ∀ c ∈ (trimChars text).getLast?, isBlank c = false := by
  rw [trimChars, List.getLast?_reverse]
  exact head?_dropWhile_isBlank _

/-- Trimming takes off what is blank at either end, and no more. -/
theorem trimChars_surrounded {front inner back : List Char} (frontBlank : ∀ c ∈ front, isBlank c)
    (backBlank : ∀ c ∈ back, isBlank c) (first : ∀ c ∈ inner.head?, isBlank c = false)
    (last : ∀ c ∈ inner.getLast?, isBlank c = false) :
    trimChars (front ++ (inner ++ back)) = inner := by
  rw [trimChars, List.dropWhile_append_of_pos frontBlank]
  cases inner with
  | nil =>
      rw [List.nil_append, List.dropWhile_eq_nil_iff.mpr backBlank]
      rfl
  | cons c rest =>
      have starts : ∀ d ∈ (c :: rest ++ back).head?, isBlank d = false := first
      have ended : ∀ d ∈ back.reverse, isBlank d := fun d member => backBlank d (List.mem_reverse.mp member)
      rw [← List.head?_reverse] at last
      rw [dropWhile_eq_self starts, List.reverse_append, List.dropWhile_append_of_pos ended,
        dropWhile_eq_self last, List.reverse_reverse]

/-- Trimming leaves a text without blanks at its ends. -/
theorem trimChars_eq_self {text : List Char} (front : ∀ c ∈ text.head?, isBlank c = false)
    (back : ∀ c ∈ text.getLast?, isBlank c = false) : trimChars text = text := by
  have trimmed := trimChars_surrounded (List.forall_mem_nil _) (List.forall_mem_nil _) front back
  rwa [List.nil_append, List.append_nil] at trimmed

/-- Trimming twice is trimming once. -/
theorem trimChars_trimChars (text : List Char) : trimChars (trimChars text) = trimChars text :=
  trimChars_eq_self (head?_trimChars text) (getLast?_trimChars text)

/-- Nothing is left of a trimmed text exactly if it holds nothing but blanks. -/
theorem isEmpty_trim (text : String) : (trim text).isEmpty = allBlank text := by
  have trimmed : trimChars text.toList = [] ↔ ∀ c ∈ text.toList, isBlank c := by
    rw [trimChars, List.reverse_eq_nil_iff, List.dropWhile_eq_nil_iff]
    simp only [List.mem_reverse]
    constructor
    · intro blank c member
      have halves : c ∈ text.toList.takeWhile isBlank ++ text.toList.dropWhile isBlank := by
        rwa [List.takeWhile_append_dropWhile]
      exact (List.mem_append.mp halves).elim List.mem_takeWhile_imp (blank c)
    · exact fun blank c member => blank c ((List.dropWhile_suffix isBlank).subset member)
  rw [Bool.eq_iff_iff, allBlank, List.all_eq_true, ← trimmed, trim, String.isEmpty_iff,
    ← String.toList_inj, String.toList_ofList, String.toList_empty]

end ConfigVetting.Text
