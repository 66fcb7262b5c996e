import ConfigVetting.Proofs.Text.Ends
import ConfigVetting.Proofs.Text.Parts
import ConfigVetting.RowKey

/-! # Members of lists

A member of a list written with commas is a piece of the text without a comma and without blanks at
its ends, so that it is the only member of itself (`ConfigVetting.listMembers_of_mem`).
-/

namespace ConfigVetting

/-- The members of a list are its pieces between commas that are not blank, trimmed. -/
theorem listMembers_eq (value : String) :
    listMembers value = ((Text.split "," value).filter fun piece => !Text.allBlank piece).map Text.trim := by
  unfold listMembers
  rw [List.filter_map]
  exact congrArg (List.map Text.trim) (List.filter_congr fun piece _ =>
    congrArg not (Text.isEmpty_trim piece))

/-- A member of a list is a trimmed part of the text between commas. -/
theorem mem_listMembers {value member : String} (inside : member ∈ listMembers value) :
    ∃ part ∈ Text.splitChars [','] value.toList.length value.toList,
      member.toList = Text.trimChars part ∧ member.isEmpty = false := by
  obtain ⟨trimmed, filled⟩ := List.mem_filter.mp inside
  obtain ⟨text, pieces, same⟩ := List.mem_map.mp trimmed
  obtain ⟨part, parts, written⟩ := List.mem_map.mp pieces
  refine ⟨part, parts, ?_, by simpa using filled⟩
  rw [← same, ← written, Text.trim, String.toList_ofList, String.toList_ofList]

/-- A member of a list is a piece of the text. -/
theorem infix_of_mem_listMembers {value member : String} (inside : member ∈ listMembers value) :
    member.toList <:+: value.toList := by
  obtain ⟨part, parts, trimmed, _⟩ := mem_listMembers inside
  rw [trimmed]
  exact (Text.trimChars_infix part).trans (Text.infix_of_mem_splitChars part parts)

/-- A member of a list has no comma. -/
theorem not_infix_of_mem_listMembers {value member : String} (inside : member ∈ listMembers value) :
    ¬ [','] <:+: member.toList := by
  obtain ⟨part, parts, trimmed, _⟩ := mem_listMembers inside
  rw [trimmed]
  intro comma
  exact Text.not_infix_of_mem_splitChars (by simp) (Nat.le_refl _) part parts
    (comma.trans (Text.trimChars_infix part))

/-- A member of a list has no blanks at its ends. -/
theorem trim_of_mem_listMembers {value member : String} (inside : member ∈ listMembers value) :
    Text.trim member = member := by
  obtain ⟨part, parts, trimmed, _⟩ := mem_listMembers inside
  rw [Text.trim, trimmed, Text.trimChars_trimChars, ← trimmed, String.ofList_toList]

/-- A member of a list is the only member of itself. -/
theorem listMembers_of_mem {value member : String} (inside : member ∈ listMembers value) :
    listMembers member = [member] := by
  obtain ⟨_, _, _, filled⟩ := mem_listMembers inside
  have parted : Text.split "," member = [member] := by
    change (Text.splitChars [','] _ _).map String.ofList = _
    rw [Text.splitChars_of_not_infix (by simp) (not_infix_of_mem_listMembers inside),
      List.map_singleton, String.ofList_toList]
  simp [listMembers, parted, trim_of_mem_listMembers inside, filled]

/-- A member of a list is not empty. -/
theorem ne_empty_of_mem_listMembers {value member : String} (inside : member ∈ listMembers value) :
    member ≠ "" := by
  obtain ⟨_, _, _, filled⟩ := mem_listMembers inside
  rintro rfl
  cases filled

/-- Whether a member of a list can end in a text that anticipates the separator: one without a comma and
without a blank at its end. -/
def Text.BlursMembers (separator : List Char) : Prop :=
  ∃ start, Anticipates start separator ∧ ',' ∉ start ∧ ∀ c ∈ start.getLast?, isBlank c = false

/-- What blurs members is one of the beginnings of the separator. -/
theorem Text.blursMembers_iff {separator : List Char} : BlursMembers separator ↔
    ∃ count ∈ List.range separator.length, Anticipates (separator.take count) separator ∧
      ',' ∉ separator.take count ∧
      ((separator.take count).getLast?.all fun c => !isBlank c) = true := by
  simp only [List.mem_range, Option.all_eq_true, Bool.not_eq_eq_eq_not, Bool.not_true]
  constructor
  · rintro ⟨start, early, blurred⟩
    refine ⟨start.length, early.2.1, ?_⟩
    rw [← List.prefix_iff_eq_take.mp early.starts]
    exact ⟨early, blurred⟩
  · rintro ⟨count, _, blurred⟩
    exact ⟨_, blurred⟩

instance (separator : List Char) : Decidable (Text.BlursMembers separator) :=
  decidable_of_iff _ Text.blursMembers_iff.symm

/-- A member of a list that is a part is a part itself, unless members blur the separator. -/
theorem isPart_of_mem_listMembers {separator : List Char} {value member : String}
    (clear : ¬ Text.BlursMembers separator) (filled : separator ≠ [])
    (isPart : Text.IsPart separator value.toList) (inside : member ∈ listMembers value) :
    Text.IsPart separator member.toList := by
  have absent : ¬ separator <:+: member.toList := fun held =>
    Text.not_infix_of_isPart filled isPart (held.trans (infix_of_mem_listMembers inside))
  rw [Text.isPart_iff_not_anticipates absent]
  rintro start ⟨front, whole⟩ early
  refine clear ⟨start, early, fun comma => ?_, fun c last => ?_⟩
  · refine not_infix_of_mem_listMembers inside ((List.singleton_infix_iff _ _).mpr ?_)
    rw [← whole]
    exact List.mem_append_right front comma
  · obtain ⟨part, _, trimmed, _⟩ := mem_listMembers inside
    apply Text.getLast?_trimChars part
    rw [← trimmed, ← whole, List.getLast?_append, last]
    rfl

/-- A text without a comma and without blanks at its ends is the only member of itself with a comma behind
it. -/
theorem listMembers_append_comma {member : String} (filled : member ≠ "")
    (plain : ',' ∉ member.toList) (trimmed : Text.trim member = member) :
    listMembers (member ++ ",") = [member] := by
  have absent : ¬ [','] <:+: member.toList := by
    rwa [List.singleton_infix_iff]
  have split : Text.split "," (member ++ ",") = [member, ""] := by
    have joined : (member ++ ",").toList = [','].intercalate ([member.toList] ++ [[]]) := by
      simp [List.intercalate]
    change (Text.splitChars [','] _ _).map String.ofList = _
    rw [joined, Text.splitChars_intercalate_of_le (by simp) (by simpa using Text.isPart_of_notMem plain)
      (by simp) (Text.length_le_length_intercalate (by simp) _ _)]
    simp
  have blank : Text.trim "" = "" := by decide
  rw [listMembers, split, List.map_cons, trimmed, List.map_singleton, blank]
  simp [filled]

/-- A separator that members blur is found too early behind some member, though not behind the list that
holds it alone. -/
theorem Text.BlursMembers.exists_member {separator : List Char} (blurs : BlursMembers separator) :
    ∃ member : String, listMembers (member ++ ",") = [member] ∧
      IsPart separator (member ++ ",").toList ∧ ¬ IsPart separator member.toList := by
  obtain ⟨start, early, plain, back⟩ := blurs
  have filled : separator ≠ [] := List.length_pos_iff.mp (Nat.zero_lt_of_lt early.2.1)
  -- A character before the start keeps it from the front of the member, where it may have a blank.
  obtain ⟨mark, notComma, notBlank, notFirst⟩ : ∃ mark : Char, mark ≠ ',' ∧ isBlank mark = false ∧
      separator.head? ≠ some mark := by
    by_cases first : separator.head? = some '0'
    · exact ⟨'1', by decide, by decide, by rw [first]; decide⟩
    · exact ⟨'0', by decide, by decide, first⟩
  have absent : ¬ separator <:+: mark :: start := by
    rw [List.infix_cons_iff, not_or]
    constructor
    · rintro ⟨after, whole⟩
      have first : (separator ++ after).head? = separator.head? :=
        List.head?_append_of_ne_nil separator filled
      rw [whole, List.head?_cons] at first
      exact notFirst first.symm
    · exact fun held => Nat.not_le_of_lt early.2.1 held.length_le
  have last : (mark :: start).getLast? = start.getLast? := by
    rw [List.getLast?_cons_of_ne_nil early.1]
  have trimmed : trimChars (mark :: start) = mark :: start := by
    refine trimChars_eq_self ?_ (by rwa [last])
    rintro c ⟨⟩
    exact notBlank
  refine ⟨String.ofList (mark :: start), listMembers_append_comma ?_ ?_ ?_, ?_, ?_⟩
  · simp
  · rw [String.toList_ofList, List.mem_cons, not_or]
    exact ⟨Ne.symm notComma, plain⟩
  · rw [trim, String.toList_ofList, trimmed]
  · rw [String.toList_append, String.toList_ofList]
    exact isPart_concat filled (fun held => plain (early.subset held)) absent
  · rw [String.toList_ofList, isPart_iff_not_anticipates absent]
    exact fun late => late start (List.suffix_cons mark start) early

/-- Members written with commas between them are the members of that list, if each is the only member of
itself. -/
theorem listMembers_joinWith {members : List String}
    (own : ∀ member ∈ members, listMembers member = [member]) :
    listMembers (Text.joinWith "," members) = members := by
  have inside : ∀ member ∈ members, member ∈ listMembers member := fun member listed =>
    own member listed ▸ List.mem_singleton_self member
  rcases members.eq_nil_or_concat with rfl | ⟨before, last, ended⟩
  · decide
  · rw [List.concat_eq_append] at ended
    subst ended
    have plain : ∀ member ∈ before ++ [last], ¬ [','] <:+: member.toList := fun member listed =>
      not_infix_of_mem_listMembers (inside member listed)
    have split : Text.split "," (Text.joinWith "," (before ++ [last])) = before ++ [last] := by
      have joined : (Text.joinWith "," (before ++ [last])).toList =
          [','].intercalate (before.map String.toList ++ [last.toList]) := by
        rw [Text.joinWith, String.toList_intercalate, List.map_append, List.map_singleton]
        rfl
      have areParts : ∀ part ∈ before.map String.toList, Text.IsPart [','] part := by
        intro part listed
        obtain ⟨member, early, rfl⟩ := List.mem_map.mp listed
        refine Text.isPart_of_notMem fun comma => ?_
        obtain ⟨front, back, whole⟩ := List.append_of_mem comma
        exact plain member (List.mem_append_left _ early) ⟨front, back, by simp [whole]⟩
      change (Text.splitChars [','] _ _).map String.ofList = _
      rw [joined, Text.splitChars_intercalate_of_le (by simp) areParts
        (plain last (List.mem_append_right _ (List.mem_singleton_self last)))
        (Text.length_le_length_intercalate (by simp) _ _)]
      simp
    rw [listMembers, split]
    have trimmed : (before ++ [last]).map Text.trim = (before ++ [last]).map id :=
      List.map_congr_left fun member listed => trim_of_mem_listMembers (inside member listed)
    rw [trimmed, List.map_id, List.filter_eq_self]
    intro member listed
    obtain ⟨_, _, _, filled⟩ := mem_listMembers (inside member listed)
    rw [filled]
    rfl

end ConfigVetting
