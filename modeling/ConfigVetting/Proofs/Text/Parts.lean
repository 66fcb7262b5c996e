import ConfigVetting.Text.Cut

/-! # Parts of texts

A text joined from parts is split into the same parts if the separator behind each part but the last
is the first one from the start of the part (`ConfigVetting.Text.splitChars_intercalate`). A part
without the separator is one unless the separator overlaps itself
(`ConfigVetting.Text.isPart_of_not_infix`).
-/

namespace ConfigVetting.Text

variable {separator part text : List Char}

/-- Whether a part is cut off at the separator behind it, and not at an earlier one. -/
def IsPart (separator part : List Char) : Prop :=
  cutChars separator (part ++ separator) = some (part, [])

instance (separator part : List Char) : Decidable (IsPart separator part) :=
  inferInstanceAs (Decidable (_ = _))

/-- Whether an end of a text is a beginning of it, but not the whole. -/
def OverlapsItself (text : List Char) : Prop :=
  ∃ border, border ≠ [] ∧ border ≠ text ∧ border <+: text ∧ border <:+ text

/-- A text that starts with the separator is cut there. -/
theorem cutChars_of_prefix (separator after : List Char) :
    cutChars separator (separator ++ after) = some ([], after) := by
  cases whole : separator ++ after with
  | nil =>
      obtain ⟨rfl, rfl⟩ := List.append_eq_nil_iff.mp whole
      rfl
  | cons c rest =>
      have starts : separator.isPrefixOf (c :: rest) := by
        rw [← whole, List.isPrefixOf_iff_prefix]
        exact List.prefix_append separator after
      unfold cutChars
      rw [if_pos starts, ← whole, List.drop_left]

/-- A text that does not start with the separator is cut behind its first character. -/
theorem cutChars_cons {c : Char} {rest : List Char} (starts : ¬ separator <+: c :: rest) :
    cutChars separator (c :: rest) =
      (cutChars separator rest).map fun (before, after) => (c :: before, after) := by
  rw [← List.isPrefixOf_iff_prefix] at starts
  rw [cutChars, if_neg starts]

private theorem isPart_nil (separator : List Char) : IsPart separator [] := by
  have cut := cutChars_of_prefix separator []
  rwa [List.append_nil] at cut

/-- A part that goes on behind a first character is cut off at the same separator. -/
theorem isPart_cons_iff {c : Char} :
    IsPart separator (c :: part) ↔ ¬ separator <+: c :: (part ++ separator) ∧
      IsPart separator part := by
  unfold IsPart
  by_cases starts : separator <+: c :: (part ++ separator)
  · obtain ⟨after, whole⟩ := starts
    rw [List.cons_append, ← whole, cutChars_of_prefix separator]
    simp
  · rw [List.cons_append, cutChars_cons starts]
    simp only [starts, not_false_eq_true, true_and, Option.map_eq_some_iff, Prod.mk.injEq,
      List.cons.injEq, Prod.exists]
    constructor
    · rintro ⟨before, after, cut, rfl, rfl⟩
      exact cut
    · exact fun cut => ⟨part, [], cut, rfl, rfl⟩

/-- A part is cut off exactly if the separator behind it is the first one from its start. -/
theorem isPart_iff {separator part : List Char} : IsPart separator part ↔
    ∀ before after, part ++ separator = before ++ (separator ++ after) → part.length ≤ before.length := by
  induction part with
  | nil => exact ⟨fun _ before after _ => Nat.zero_le _, fun _ => isPart_nil separator⟩
  | cons c part ih =>
      rw [isPart_cons_iff, ih]
      constructor
      · rintro ⟨starts, rest⟩ before after whole
        cases before with
        | nil => exact absurd ⟨after, whole.symm⟩ starts
        | cons d before => exact Nat.succ_le_succ (rest before after (List.cons.inj whole).2)
      · intro first
        refine ⟨fun ⟨after, whole⟩ => ?_, fun before after whole => ?_⟩
        · exact absurd (first [] after whole.symm) (Nat.not_succ_le_zero _)
        · exact Nat.le_of_succ_le_succ (first (c :: before) after (congrArg (c :: ·) whole))

/-- A part is cut off whatever comes behind the separator. -/
theorem cutChars_of_isPart (isPart : IsPart separator part) (after : List Char) :
    cutChars separator (part ++ (separator ++ after)) = some (part, after) := by
  induction part with
  | nil => exact cutChars_of_prefix separator after
  | cons c part ih =>
      obtain ⟨starts, rest⟩ := isPart_cons_iff.mp isPart
      have startsNot : ¬ separator <+: c :: (part ++ (separator ++ after)) := by
        intro longer
        refine starts (List.prefix_of_prefix_length_le longer ?_ ?_)
        · exact ⟨after, by simp⟩
        · simp
          omega
      rw [List.cons_append, cutChars_cons startsNot, ih rest]
      rfl

/-- What is cut off a text is a part. -/
theorem isPart_of_cutChars {before after : List Char}
    (cut : cutChars separator text = some (before, after)) : IsPart separator before := by
  induction text generalizing before with
  | nil =>
      unfold cutChars at cut
      by_cases empty : separator = []
      · rw [if_pos empty] at cut
        cases cut
        rw [empty]
        rfl
      · rw [if_neg empty] at cut
        cases cut
  | cons c rest ih =>
      by_cases starts : separator <+: c :: rest
      · obtain ⟨others, whole⟩ := starts
        rw [← whole, cutChars_of_prefix] at cut
        cases cut
        exact isPart_nil separator
      · rw [cutChars_cons starts, Option.map_eq_some_iff] at cut
        obtain ⟨⟨first, others⟩, cutRest, same⟩ := cut
        cases same
        refine isPart_cons_iff.mpr ⟨fun longer => starts ?_, ih cutRest⟩
        rw [eq_append_of_cutChars cutRest]
        exact longer.trans ⟨after, by simp⟩

/-- A part does not hold the separator, which is not empty. -/
theorem not_infix_of_isPart (filled : separator ≠ []) (isPart : IsPart separator part) :
    ¬ separator <:+: part := by
  induction part with
  | nil =>
      rw [List.infix_nil]
      exact filled
  | cons c part ih =>
      obtain ⟨starts, rest⟩ := isPart_cons_iff.mp isPart
      rw [List.infix_cons_iff]
      rintro (start | inside)
      · exact starts (start.trans ⟨separator, by simp⟩)
      · exact ih rest inside

/-- A text without the first character of the separator is a part. -/
theorem isPart_of_notMem {c : Char} (absent : c ∉ part) : IsPart (c :: separator) part := by
  induction part with
  | nil => exact isPart_nil _
  | cons d part ih =>
      rw [List.mem_cons, not_or] at absent
      refine isPart_cons_iff.mpr ⟨fun starts => absent.1 ?_, ih absent.2⟩
      exact (List.cons_prefix_cons.mp starts).1

/-- Whether the separator already starts in a text that it comes behind, and ends outside it. -/
def Anticipates (start separator : List Char) : Prop :=
  start ≠ [] ∧ start.length < separator.length ∧ separator <+: start ++ separator

instance (start separator : List Char) : Decidable (Anticipates start separator) :=
  inferInstanceAs (Decidable (_ ∧ _ ∧ _))

/-- What anticipates a separator is one of its beginnings. -/
theorem Anticipates.starts {start : List Char} (early : Anticipates start separator) :
    start <+: separator :=
  List.prefix_of_prefix_length_le (List.prefix_append _ _) early.2.2 (Nat.le_of_lt early.2.1)

/-- A separator that some text anticipates goes on as the rest of itself, so that it overlaps itself. -/
theorem Anticipates.overlapsItself {start : List Char} (early : Anticipates start separator) :
    OverlapsItself separator := by
  obtain ⟨border, whole⟩ := early.starts
  obtain ⟨filled, shorter, again⟩ := early
  have lengths := congrArg List.length whole
  rw [List.length_append] at lengths
  have started := List.length_pos_iff.mpr filled
  refine ⟨border, ?_, ?_, ?_, ⟨start, whole⟩⟩
  · rintro rfl
    rw [List.length_nil] at lengths
    omega
  · rintro rfl
    omega
  · rw [← List.prefix_append_right_inj start, whole]
    exact again

/-- Every character of a separator stands in each text that anticipates it. -/
theorem Anticipates.subset {start : List Char} (early : Anticipates start separator) :
    separator ⊆ start := by
  obtain ⟨filled, _, after, again⟩ := early
  have started := List.length_pos_iff.mpr filled
  have stands : ∀ (place : Nat) (c : Char), separator[place]? = some c → c ∈ start := by
    intro place
    induction place using Nat.strongRecOn with
    | _ place ih =>
        intro c found
        have shifted : (start ++ separator)[place]? = some c := by
          rw [← again, List.getElem?_append_left (List.getElem?_eq_some_iff.mp found).1, found]
        by_cases inside : place < start.length
        · rw [List.getElem?_append_left inside] at shifted
          exact List.mem_of_getElem? shifted
        · rw [List.getElem?_append_right (Nat.le_of_not_lt inside)] at shifted
          exact ih (place - start.length) (by omega) c shifted
  intro c member
  obtain ⟨place, found⟩ := List.mem_iff_getElem?.mp member
  exact stands place c found

/-- A text that does not hold the separator is a part exactly if no end of it anticipates the separator. -/
theorem isPart_iff_not_anticipates (absent : ¬ separator <:+: part) : IsPart separator part ↔
    ∀ start, start <:+ part → ¬ Anticipates start separator := by
  rw [isPart_iff]
  constructor
  · rintro first start ⟨before, rfl⟩ ⟨filled, _, after, again⟩
    have reached := first before after (by rw [List.append_assoc, again])
    rw [List.length_append] at reached
    have started := List.length_pos_iff.mpr filled
    omega
  · intro late before after whole
    refine Nat.le_of_not_lt fun inside => ?_
    obtain ⟨start, rfl⟩ : before <+: part := List.prefix_of_prefix_length_le
      ⟨separator ++ after, whole.symm⟩ (List.prefix_append _ _) (Nat.le_of_lt inside)
    rw [List.append_assoc, List.append_cancel_left_eq] at whole
    by_cases short : start.length < separator.length
    · refine late start (List.suffix_append _ _) ⟨?_, short, after, whole.symm⟩
      rintro rfl
      rw [List.append_nil] at inside
      exact Nat.lt_irrefl _ inside
    · have starts : separator <+: start := List.prefix_of_prefix_length_le
        ⟨after, whole.symm⟩ (List.prefix_append _ _) (Nat.le_of_not_lt short)
      exact absent (starts.isInfix.trans (List.suffix_append _ _).isInfix)

/-- Without overlaps, a text that does not hold the separator is a part. -/
theorem isPart_of_not_infix (plain : ¬ OverlapsItself separator)
    (absent : ¬ separator <:+: part) : IsPart separator part :=
  (isPart_iff_not_anticipates absent).mpr fun _ _ early => plain early.overlapsItself

/-- A text that does not hold the separator is a part with a character behind it that the separator has not. -/
theorem isPart_concat {c : Char} (filled : separator ≠ []) (outside : c ∉ separator)
    (absent : ¬ separator <:+: part) : IsPart separator (part ++ [c]) := by
  have stillAbsent : ¬ separator <:+: part ++ [c] := by
    rw [List.infix_concat_iff, List.suffix_concat_iff, not_or, not_or]
    refine ⟨⟨filled, ?_⟩, absent⟩
    rintro ⟨front, rfl, _⟩
    exact outside (List.mem_append_right front (List.mem_singleton_self c))
  rw [isPart_iff_not_anticipates stillAbsent]
  rintro start ends ⟨started, shorter, again⟩
  obtain ⟨rest, rfl⟩ : start <+: separator :=
    List.prefix_of_prefix_length_le (List.prefix_append _ _) again (Nat.le_of_lt shorter)
  rcases List.suffix_concat_iff.mp ends with rfl | ⟨front, rfl, _⟩
  · exact started rfl
  · exact outside (by simp)

private theorem intercalate_cons_append (separator part : List Char) (parts : List (List Char))
    (last : List Char) : separator.intercalate (part :: parts ++ [last]) =
      part ++ (separator ++ separator.intercalate (parts ++ [last])) := by
  cases parts <;> simp [List.intercalate]

/-- The parts of a text give it again when they are joined. -/
theorem joinWith_splitChars (separator text : String) (cuts : Nat) :
    joinWith separator ((splitChars separator.toList cuts text.toList).map String.ofList) = text := by
  rw [← String.toList_inj, joinWith, String.toList_intercalate, List.map_map]
  have same : String.toList ∘ String.ofList = id := funext fun _ => String.toList_ofList
  rw [same, List.map_id, intercalate_splitChars]

/-- Parts joined with the separator between them, the last one of any form, are split again. -/
theorem splitChars_intercalate {parts : List (List Char)} {last : List Char}
    (areParts : ∀ part ∈ parts, IsPart separator part) :
    splitChars separator parts.length (separator.intercalate (parts ++ [last])) =
      parts ++ [last] := by
  induction parts with
  | nil => simp [splitChars, List.intercalate]
  | cons part parts ih =>
      have cut := cutChars_of_isPart (areParts part List.mem_cons_self)
        (separator.intercalate (parts ++ [last]))
      rw [List.length_cons, splitChars, intercalate_cons_append, cut]
      simp only [ih fun later member => areParts later (List.mem_cons_of_mem _ member),
        List.cons_append]

/-- All parts of a text that was split are cut off as such, the last one apart. -/
theorem isPart_of_mem_splitChars {cuts : Nat} :
    ∀ part ∈ (splitChars separator cuts text).dropLast, IsPart separator part := by
  induction cuts generalizing text with
  | zero => simp [splitChars]
  | succ cuts ih =>
      intro part member
      rw [splitChars] at member
      cases cut : cutChars separator text with
      | none => simp [cut] at member
      | some halves =>
          obtain ⟨before, after⟩ := halves
          simp only [cut] at member
          rw [List.dropLast_cons_of_ne_nil (splitChars_ne_nil _ _ _), List.mem_cons] at member
          rcases member with rfl | later
          · exact isPart_of_cutChars cut
          · exact ih part later

/-- A text is cut exactly if it holds the separator, which is not empty. -/
theorem cutChars_eq_none_iff (filled : separator ≠ []) :
    cutChars separator text = none ↔ ¬ separator <:+: text := by
  constructor
  · intro uncut
    induction text with
    | nil =>
        rw [List.infix_nil]
        exact filled
    | cons c rest ih =>
        by_cases starts : separator <+: c :: rest
        · obtain ⟨after, whole⟩ := starts
          rw [← whole, cutChars_of_prefix separator] at uncut
          cases uncut
        · rw [cutChars_cons starts, Option.map_eq_none_iff] at uncut
          rw [List.infix_cons_iff, not_or]
          exact ⟨starts, ih uncut⟩
  · intro absent
    cases cut : cutChars separator text with
    | none => rfl
    | some halves =>
        obtain ⟨before, after⟩ := halves
        exact absurd ⟨before, after, (eq_append_of_cutChars cut).symm⟩ absent

/-- A text without the separator is its only part. -/
theorem splitChars_of_not_infix (filled : separator ≠ []) (absent : ¬ separator <:+: text)
    (cuts : Nat) : splitChars separator cuts text = [text] := by
  cases cuts with
  | zero => rfl
  | succ cuts =>
      rw [splitChars, (cutChars_eq_none_iff filled).mpr absent]

/-- With enough cuts, parts joined with the separator between them are split again if the last one does not
hold the separator. -/
theorem splitChars_intercalate_of_le (filled : separator ≠ []) {parts : List (List Char)}
    {last : List Char} (areParts : ∀ part ∈ parts, IsPart separator part)
    (absent : ¬ separator <:+: last) {cuts : Nat} (enough : parts.length ≤ cuts) :
    splitChars separator cuts (separator.intercalate (parts ++ [last])) = parts ++ [last] := by
  induction parts generalizing cuts with
  | nil =>
      have alone : separator.intercalate ([] ++ [last]) = last := by
        simp [List.intercalate]
      rw [alone, splitChars_of_not_infix filled absent, List.nil_append]
  | cons part parts ih =>
      obtain ⟨later, rfl⟩ := Nat.exists_eq_succ_of_ne_zero (Nat.ne_zero_of_lt enough)
      have cut := cutChars_of_isPart (areParts part List.mem_cons_self)
        (separator.intercalate (parts ++ [last]))
      rw [splitChars, intercalate_cons_append, cut]
      simp only [ih (fun other member => areParts other (List.mem_cons_of_mem _ member))
        (Nat.le_of_succ_le_succ enough), List.cons_append]

/-- A text joined with separators has at least as many characters as separators. -/
theorem length_le_length_intercalate (filled : separator ≠ []) (parts : List (List Char))
    (last : List Char) : parts.length ≤ (separator.intercalate (parts ++ [last])).length := by
  have separated := List.length_pos_iff.mpr filled
  induction parts with
  | nil => exact Nat.zero_le _
  | cons part parts ih =>
      rw [intercalate_cons_append, List.length_cons, List.length_append, List.length_append]
      omega

/-- With enough cuts, no part of a text holds the separator. -/
theorem not_infix_of_mem_splitChars (filled : separator ≠ []) {cuts : Nat}
    (enough : text.length ≤ cuts) : ∀ part ∈ splitChars separator cuts text,
      ¬ separator <:+: part := by
  induction cuts generalizing text with
  | zero =>
      have empty : text = [] := List.eq_nil_of_length_eq_zero (Nat.le_zero.mp enough)
      rw [empty]
      intro part member
      rw [List.mem_singleton.mp member, List.infix_nil]
      exact filled
  | succ cuts ih =>
      intro part member
      rw [splitChars] at member
      cases cut : cutChars separator text with
      | none =>
          simp only [cut, List.mem_singleton] at member
          rw [member]
          exact (cutChars_eq_none_iff filled).mp cut
      | some halves =>
          obtain ⟨before, after⟩ := halves
          simp only [cut, List.mem_cons] at member
          rcases member with rfl | later
          · exact not_infix_of_isPart filled (isPart_of_cutChars cut)
          · refine ih ?_ part later
            have lengths := congrArg List.length (eq_append_of_cutChars cut)
            have separated := List.length_pos_iff.mpr filled
            simp only [List.length_append] at lengths
            omega

/-- Every part of a text is a piece of it. -/
theorem infix_of_mem_splitChars {cuts : Nat} :
    ∀ part ∈ splitChars separator cuts text, part <:+: text := by
  induction cuts generalizing text with
  | zero => simp [splitChars]
  | succ cuts ih =>
      intro part member
      rw [splitChars] at member
      cases cut : cutChars separator text with
      | none =>
          simp only [cut, List.mem_singleton] at member
          exact member ▸ List.infix_refl text
      | some halves =>
          obtain ⟨before, after⟩ := halves
          simp only [cut, List.mem_cons] at member
          have whole := eq_append_of_cutChars cut
          rcases member with rfl | later
          · exact ⟨[], separator ++ after, by simp [whole]⟩
          · exact (ih part later).trans ⟨before ++ separator, [], by simp [whole]⟩

end ConfigVetting.Text
