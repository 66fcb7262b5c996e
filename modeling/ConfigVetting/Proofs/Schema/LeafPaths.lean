import ConfigVetting.Proofs.Text.Ends
import ConfigVetting.Proofs.Text.Parts
import ConfigVetting.Schema.Leafref
import Mathlib.Order.WellFounded

/-! # Where leafref paths lead

A leafref path leads to the first target that it names once its predicates are left out of it
(`ConfigVetting.LeafrefTarget.parse?_eq_some_iff_isFirst`). Names hold no slash, so all that it names ends
in its last two steps, and the first target is the one with the longest name of a list. So a path to a leaf
in the list of a table leads there, wherever predicates stand in it and whatever names they and the steps
before the list hold (`ConfigVetting.LeafPath.parse_of_hasPredicates`).
-/

namespace ConfigVetting

/-- A name holds nothing that is not of names. -/
theorem notMem_of_isName {text : List Char} {c : Char} (named : isName text)
    (outside : isNameChar c = false) : c ∉ text := by
  intro inside
  obtain ⟨_, all⟩ := Bool.and_eq_true_iff.mp named
  rw [List.all_eq_true.mp all c inside] at outside
  cases outside

/-- A name goes on to the front with each character that is of names. -/
theorem isName_cons {text : List Char} {c : Char} (named : isName text)
    (inside : isNameChar c = true) : isName (c :: text) := by
  obtain ⟨_, all⟩ := Bool.and_eq_true_iff.mp named
  simp only [isName, List.isEmpty_cons, Bool.not_false, List.all_cons, inside, all, Bool.and_self]

/-- The characters of names stand between the minus and the last small letter. -/
theorem code_of_isNameChar {c : Char} (inside : isNameChar c = true) :
    '-'.toNat ≤ c.toNat ∧ c.toNat ≤ 'z'.toNat := by
  have within : ∀ low high : Char, c.val ≥ low.val ∧ c.val ≤ high.val → '-'.toNat ≤ low.toNat →
      high.toNat ≤ 'z'.toNat → '-'.toNat ≤ c.toNat ∧ c.toNat ≤ 'z'.toNat := by
    rintro low high ⟨above, below⟩ least greatest
    rw [ge_iff_le, UInt32.le_iff_toNat_le] at above
    rw [UInt32.le_iff_toNat_le] at below
    exact ⟨least.trans above, below.trans greatest⟩
  simp only [isNameChar, Bool.or_eq_true, decide_eq_true_eq] at inside
  rcases inside with (alphanumeric | rfl) | rfl
  · rcases Bool.or_eq_true_iff.mp alphanumeric with letter | digit
    · rcases Bool.or_eq_true_iff.mp letter with upper | lower
      · exact within 'A' 'Z' (of_decide_eq_true upper) (by decide) (by decide)
      · have both := (Bool.and_eq_true_iff.mp lower).imp of_decide_eq_true of_decide_eq_true
        exact within 'a' 'z' both (by decide) (by decide)
    · have both := (Bool.and_eq_true_iff.mp digit).imp of_decide_eq_true of_decide_eq_true
      exact within '0' '9' both (by decide) (by decide)
  · decide
  · decide

/-- No character of names is blank. -/
theorem isBlank_of_isNameChar {c : Char} (inside : isNameChar c = true) :
    Text.isBlank c = false := by
  have bounds : 45 ≤ c.toNat ∧ c.toNat ≤ 122 := code_of_isNameChar inside
  simp only [Text.isBlank, Bool.or_eq_false_iff, Bool.and_eq_false_iff, decide_eq_false_iff_not,
    beq_eq_false_iff_ne]
  omega

namespace LeafrefTarget

/-- Whether a step of a path names something, behind the name of its module if one is given. -/
def Names (step name : List Char) : Prop :=
  isName name ∧ (step = name ∨ ∃ owner, isName owner ∧ step = owner ++ ':' :: name)

variable {step name : List Char}

/-- A step holds characters of names and colons. -/
theorem Names.char_cases (names : Names step name) : ∀ c ∈ step, isNameChar c = true ∨ c = ':' := by
  have inside : ∀ {text : List Char}, isName text → ∀ c ∈ text, isNameChar c = true := fun named =>
    List.all_eq_true.mp (Bool.and_eq_true_iff.mp named).2
  rcases names with ⟨named, rfl | ⟨owner, owned, rfl⟩⟩
  · exact fun c member => .inl (inside named c member)
  · intro c member
    rcases List.mem_append.mp member with early | late
    · exact .inl (inside owned c early)
    · exact (List.mem_cons.mp late).symm.imp_left (inside named c)

private theorem Names.slash_notMem (names : Names step name) : '/' ∉ step :=
  fun member => absurd (names.char_cases '/' member) (by decide)

private theorem Names.bracket_notMem (names : Names step name) : '[' ∉ step :=
  fun member => absurd (names.char_cases '[' member) (by decide)

private theorem Names.not_isBlank (names : Names step name) : ∀ c ∈ step, Text.isBlank c = false := by
  intro c member
  rcases names.char_cases c member with inside | rfl
  · exact isBlank_of_isNameChar inside
  · decide

private theorem Names.ne_nil (names : Names step name) : step ≠ [] := by
  rcases names with ⟨named, rfl | ⟨owner, _, rfl⟩⟩
  · rintro rfl
    cases named
  · simp

/-- The last step of a path is read as the name behind its only colon, or as a whole. -/
theorem leafName_eq_some_iff : leafName step = some name ↔ Names step name := by
  have outside : isNameChar ':' = false := by decide
  unfold leafName Names
  constructor
  · intro read
    split at read
    · rw [Option.ite_none_right_eq_some, Option.some.injEq] at read
      obtain ⟨named, rfl⟩ := read
      exact ⟨named, .inl rfl⟩
    · next owner rest cut =>
      rw [Option.ite_none_right_eq_some, Option.some.injEq, Bool.and_eq_true] at read
      obtain ⟨⟨owned, named⟩, rfl⟩ := read
      refine ⟨named, .inr ⟨owner, owned, ?_⟩⟩
      rw [Text.eq_append_of_cutChars cut, List.append_assoc, List.singleton_append]
  · rintro ⟨named, rfl | ⟨owner, owned, rfl⟩⟩
    · have uncut : Text.cutChars [':'] step = none := by
        rw [Text.cutChars_eq_none_iff (List.cons_ne_nil _ _), List.singleton_infix_iff]
        exact notMem_of_isName named outside
      simp only [uncut, named, ↓reduceIte]
    · have isPart : Text.IsPart [':'] owner :=
        Text.isPart_of_notMem (notMem_of_isName owned outside)
      have cut := Text.cutChars_of_isPart isPart name
      rw [List.singleton_append] at cut
      simp only [cut, owned, named, Bool.and_self, ↓reduceIte]

/-- A path is cut at the slash behind which there is none. -/
theorem cutAtLastSlash_eq_some_iff {text before step : List Char} :
    cutAtLastSlash text = some (before, step) ↔ text = before ++ '/' :: step ∧ '/' ∉ step := by
  have parted : text.reverse.takeWhile (· ≠ '/') = step.reverse ∧
      text.reverse.dropWhile (· ≠ '/') = '/' :: before.reverse ↔
        text = before ++ '/' :: step ∧ '/' ∉ step := by
    have runs := @Text.lastRun_iff (fun c => decide (c ≠ '/')) text (before ++ ['/']) step
    rw [List.reverse_append, List.append_assoc] at runs
    refine runs.trans (and_congr_right fun _ => ?_)
    simp only [decide_eq_true_eq, List.getLast?_concat, Option.mem_some_iff, forall_eq', ne_eq,
      not_true_eq_false, decide_false, and_true]
    exact ⟨fun apart slash => apart '/' slash rfl, fun absent c member same => absent (same ▸ member)⟩
  rw [← parted]
  unfold cutAtLastSlash
  cases dropped : text.reverse.dropWhile (· ≠ '/') with
  | nil => simp
  | cons c rest =>
      have slash : c = '/' := by
        have outside := (Text.takeWhile_and_dropWhile_iff.mp ⟨rfl, dropped⟩).2.2 c rfl
        simpa using outside
      simp only [slash, Option.some.injEq, Prod.mk.injEq, List.cons.injEq, true_and,
        List.reverse_eq_iff]
      exact and_comm

/-- The name of a table is read from what stands of it before the ending of its list. -/
theorem tableName_eq_some_iff {path table : List Char} : tableName path = some table ↔
    isName table ∧ ∃ before, path = before ++ (table ++ listEnding) ∧
      ∀ c ∈ before.getLast?, isNameChar c = false := by
  unfold tableName
  rw [Option.bind_eq_some_iff]
  constructor
  · rintro ⟨rest, ended, read⟩
    rw [Text.afterStartChars_eq_some_iff, List.reverse_eq_iff, List.reverse_append,
      List.reverse_reverse] at ended
    simp only [Option.ite_none_left_eq_some, Option.some.injEq] at read
    obtain ⟨filled, rfl⟩ := read
    obtain ⟨whole, inside, outside⟩ := (@Text.lastRun_iff isNameChar rest.reverse
      (rest.dropWhile isNameChar).reverse (rest.takeWhile isNameChar).reverse).mp (by simp)
    refine ⟨?_, _, ?_, outside⟩
    · simp only [isName, filled, Bool.not_false, Bool.true_and, List.all_eq_true]
      exact inside
    · rw [ended, whole, List.append_assoc]
  · rintro ⟨named, before, rfl, outside⟩
    obtain ⟨filled, inside⟩ := Bool.and_eq_true_iff.mp named
    obtain ⟨taken, _⟩ := Text.lastRun_iff.mpr ⟨rfl, List.all_eq_true.mp inside, outside⟩
    refine ⟨(before ++ table).reverse, Text.afterStartChars_eq_some_iff.mpr ?_, ?_⟩
    · rw [← List.append_assoc, List.reverse_append]
    · rw [Bool.not_eq_true'] at filled
      simp only [taken, List.reverse_reverse, filled, Bool.false_eq_true, ↓reduceIte]

/-- A path without the blanks around it and the predicates in it. -/
def plain (path : String) : List Char :=
  withoutPredicates none (Text.trim path).toList

/-- The target of a path is read from its last two steps. The name of the table goes on as far to the left of
the ending of the list as there are characters of names. -/
theorem parse?_eq_some_iff {path : String} {target : LeafrefTarget} :
    parse? path = some target ↔ isName target.table.toList ∧ ∃ before step,
      plain path = before ++ (target.table.toList ++ (listEnding ++ '/' :: step)) ∧
        (∀ c ∈ before.getLast?, isNameChar c = false) ∧ Names step target.leaf.toList := by
  unfold parse?
  simp only [Option.bind_eq_bind, Option.bind_eq_some_iff, Prod.exists, cutAtLastSlash_eq_some_iff,
    tableName_eq_some_iff, leafName_eq_some_iff, Option.some.injEq]
  constructor
  · rintro ⟨_, step, ⟨whole, _⟩, table, ⟨named, before, rfl, outside⟩, leaf, names, rfl⟩
    simp only [String.toList_ofList]
    refine ⟨named, before, step, ?_, outside, names⟩
    rw [plain, whole]
    simp only [List.append_assoc]
  · rintro ⟨named, before, step, whole, outside, names⟩
    refine ⟨before ++ (target.table.toList ++ listEnding), step, ⟨?_, names.slash_notMem⟩,
      target.table.toList, ⟨named, before, rfl, outside⟩, target.leaf.toList, names, ?_⟩
    · rw [← plain, whole]
      simp only [List.append_assoc]
    · simp only [String.ofList_toList]

/-- Whether a text names a leaf in the list of a table at its end, behind some characters. -/
def Matches (text before : List Char) (target : LeafrefTarget) : Prop :=
  ∃ list step, text = before ++ (list ++ (listEnding ++ '/' :: step)) ∧
    Names list target.table.toList ∧ Names step target.leaf.toList

/-- Whatever stands before them, two matches of a text have its last slash in common. -/
theorem same_steps {text before other list otherList step otherStep name otherName : List Char}
    (whole : text = before ++ (list ++ (listEnding ++ '/' :: step))) (names : Names step name)
    (otherWhole : text = other ++ (otherList ++ (listEnding ++ '/' :: otherStep)))
    (otherNames : Names otherStep otherName) :
    before ++ list = other ++ otherList ∧ step = otherStep := by
  have cut : cutAtLastSlash text = some (before ++ list ++ listEnding, step) :=
    cutAtLastSlash_eq_some_iff.mpr ⟨by simp [whole], names.slash_notMem⟩
  have otherCut : cutAtLastSlash text = some (other ++ otherList ++ listEnding, otherStep) :=
    cutAtLastSlash_eq_some_iff.mpr ⟨by simp [otherWhole], otherNames.slash_notMem⟩
  rw [cut, Option.some.injEq, Prod.mk.injEq, List.append_cancel_right_eq] at otherCut
  exact otherCut

/-- There is one match behind given characters at most. -/
theorem Matches.target_eq {text before : List Char} {target other : LeafrefTarget}
    (found : Matches text before target) (again : Matches text before other) : other = target := by
  obtain ⟨list, step, whole, listNames, names⟩ := found
  obtain ⟨otherList, otherStep, otherWhole, otherListNames, otherNames⟩ := again
  obtain ⟨lists, rfl⟩ := same_steps whole names otherWhole otherNames
  obtain rfl := List.append_cancel_left lists
  have table := leafName_eq_some_iff.mpr listNames
  have leaf := leafName_eq_some_iff.mpr names
  rw [leafName_eq_some_iff.mpr otherListNames, Option.some.injEq, String.toList_inj] at table
  rw [leafName_eq_some_iff.mpr otherNames, Option.some.injEq, String.toList_inj] at leaf
  obtain ⟨_, _⟩ := target
  obtain ⟨_, _⟩ := other
  exact congrArg₂ LeafrefTarget.mk table leaf

/-- Whether a target is the one that a text names from as far to the left as it names any. -/
def IsFirst (text : List Char) (target : LeafrefTarget) : Prop :=
  ∃ before, Matches text before target ∧ ∀ other otherTarget, Matches text other otherTarget →
    before.length ≤ other.length ∧ (other = before → otherTarget = target)

private theorem Matches.isFirst {text before : List Char} {target : LeafrefTarget}
    (found : Matches text before target)
    (first : ∀ other otherTarget, Matches text other otherTarget → before.length ≤ other.length) :
    IsFirst text target :=
  ⟨before, found, fun other otherTarget again =>
    ⟨first other otherTarget again, fun same => found.target_eq (same ▸ again)⟩⟩

/-- The first target that a path names is the one that is read. -/
theorem parse?_of_isFirst {path : String} {target : LeafrefTarget}
    (first : IsFirst (plain path) target) : parse? path = some target := by
  obtain ⟨before, ⟨list, step, whole, listNames, names⟩, least⟩ := first
  rw [parse?_eq_some_iff]
  rcases listNames with ⟨named, rfl | ⟨owner, _, rfl⟩⟩
  · refine ⟨named, before, step, whole, fun c last => ?_, names⟩
    -- One more character of names would make a longer name, and a match that starts earlier.
    by_contra inside
    obtain ⟨front, rfl⟩ := List.getLast?_eq_some_iff.mp last
    let longer : LeafrefTarget := ⟨String.ofList (c :: target.table.toList), target.leaf⟩
    have longerNames : Names (c :: target.table.toList) longer.table.toList := by
      rw [String.toList_ofList]
      exact ⟨isName_cons named (Bool.of_not_eq_false inside), .inl rfl⟩
    have earlier : Matches (plain path) front longer :=
      ⟨_, step, by simp [whole], longerNames, names⟩
    have reached := (least front _ earlier).1
    rw [List.length_append, List.length_singleton] at reached
    exact Nat.not_succ_le_self _ reached
  · refine ⟨named, before ++ (owner ++ [':']), step, by simp [whole], fun c last => ?_, names⟩
    rw [← List.append_assoc, List.getLast?_concat, Option.mem_some_iff] at last
    rw [← last]
    decide

/-- A path leads to the first target that it names. -/
theorem parse?_eq_some_iff_isFirst {path : String} {target : LeafrefTarget} :
    parse? path = some target ↔ IsFirst (plain path) target := by
  refine ⟨fun read => ?_, parse?_of_isFirst⟩
  obtain ⟨named, before, step, whole, _, names⟩ := parse?_eq_some_iff.mp read
  -- The match that is read may have a name of a module before it, so the first one is looked for.
  let Found : Set (List Char × LeafrefTarget) := {found | Matches (plain path) found.1 found.2}
  have filled : Found.Nonempty := ⟨(before, target), _, step, whole, ⟨named, .inl rfl⟩, names⟩
  obtain ⟨⟨first, firstTarget⟩, found, least⟩ :=
    (measure fun found : List Char × LeafrefTarget => found.1.length).wf.has_min Found filled
  have isFirst := Matches.isFirst found fun other otherTarget again =>
    Nat.le_of_not_lt (least (other, otherTarget) again)
  have same := (parse?_of_isFirst isFirst).symm.trans read
  exact Option.some.inj same ▸ isFirst

/-- A predicate is left out up to the first bracket that closes it. -/
theorem withoutPredicates_content {content : List Char} (unclosed : ']' ∉ content)
    (opened written : List Char) :
    withoutPredicates (some opened) (content ++ ']' :: written) = withoutPredicates none written := by
  induction content generalizing opened with
  | nil => rfl
  | cons c content ih =>
      rw [List.mem_cons, not_or] at unclosed
      rw [List.cons_append, withoutPredicates, if_neg (Ne.symm unclosed.1)]
      exact ih unclosed.2 (c :: opened)

/-- Whether a text is another one with predicates in brackets between its characters. -/
inductive HasPredicates : List Char → List Char → Prop where
  | nil : HasPredicates [] []
  | char (c : Char) {text written : List Char} :
      HasPredicates text written → HasPredicates (c :: text) (c :: written)
  | predicate {content : List Char} (unclosed : ']' ∉ content) {text written : List Char} :
      HasPredicates text written → HasPredicates text ('[' :: (content ++ ']' :: written))

namespace HasPredicates

variable {text written : List Char}

/-- Predicates may stand behind any beginning. -/
theorem behind (start : List Char) (inserted : HasPredicates text written) :
    HasPredicates (start ++ text) (start ++ written) := by
  induction start with
  | nil => exact inserted
  | cons c start ih => exact .char c ih

/-- The predicates of a text without opening brackets are left out of it. -/
theorem withoutPredicates_eq (inserted : HasPredicates text written) (unopened : '[' ∉ text) :
    withoutPredicates none written = text := by
  induction inserted with
  | nil => rfl
  | char c _ ih =>
      rw [List.mem_cons, not_or] at unopened
      rw [withoutPredicates, if_neg (Ne.symm unopened.1), ih unopened.2]
  | predicate unclosed _ ih =>
      rw [withoutPredicates]
      exact (withoutPredicates_content unclosed _ _).trans (ih unopened)

/-- Blanks at the start of the text come off it where no predicate stands before them. -/
theorem exists_dropWhile (inserted : HasPredicates text written) : ∃ blanks rest,
    text = blanks ++ rest ∧ (∀ c ∈ blanks, Text.isBlank c) ∧
      HasPredicates rest (written.dropWhile Text.isBlank) := by
  induction inserted with
  | nil => exact ⟨[], [], rfl, List.forall_mem_nil _, .nil⟩
  | @char c text written inserted ih =>
      by_cases blank : Text.isBlank c
      · obtain ⟨blanks, rest, rfl, allBlank, kept⟩ := ih
        refine ⟨c :: blanks, rest, rfl, List.forall_mem_cons.mpr ⟨blank, allBlank⟩, ?_⟩
        rwa [List.dropWhile_cons_of_pos blank]
      · refine ⟨[], c :: text, rfl, List.forall_mem_nil _, ?_⟩
        rw [List.dropWhile_cons_of_neg blank]
        exact .char c inserted
  | @predicate content unclosed text written inserted _ =>
      have bracket : ¬ Text.isBlank '[' := by decide
      refine ⟨[], text, rfl, List.forall_mem_nil _, ?_⟩
      rw [List.dropWhile_cons_of_neg bracket]
      exact .predicate unclosed inserted

/-- A text with predicates ends as it did without them, or in a bracket. -/
theorem getLast?_cases (inserted : HasPredicates text written) :
    ∀ c ∈ written.getLast?, c ∈ text.getLast? ∨ c = ']' := by
  induction inserted with
  | nil => nofun
  | @char d text written inserted ih =>
      intro c last
      cases ended : written.getLast? with
      | none =>
          obtain rfl := List.getLast?_eq_none_iff.mp ended
          cases inserted
          exact .inl last
      | some e =>
          rw [List.getLast?_cons, ended, Option.getD_some, Option.mem_some_iff] at last
          rw [← last, List.getLast?_cons]
          refine (ih e ended).imp_left fun kept => ?_
          rw [Option.mem_def.mp kept]
          rfl
  | @predicate content unclosed text written inserted ih =>
      intro c last
      rw [List.getLast?_cons, List.getLast?_append, List.getLast?_cons] at last
      cases ended : written.getLast? with
      | none =>
          rw [ended] at last
          exact .inr (Option.mem_some_iff.mp last).symm
      | some e =>
          rw [ended] at last
          rw [← Option.mem_some_iff.mp last]
          exact ih e ended

/-- Trimming takes off the blanks around a text with predicates, and those that stand before the first
predicate. -/
theorem trimChars_eq (inserted : HasPredicates text written) {front back : List Char}
    (frontBlank : ∀ c ∈ front, Text.isBlank c) (backBlank : ∀ c ∈ back, Text.isBlank c)
    (last : ∀ c ∈ text.getLast?, Text.isBlank c = false) :
    Text.trimChars (front ++ (written ++ back)) = written.dropWhile Text.isBlank := by
  have whole : front ++ (written ++ back) = (front ++ written.takeWhile Text.isBlank) ++
      (written.dropWhile Text.isBlank ++ back) := by
    rw [List.append_assoc, ← List.append_assoc (written.takeWhile _), List.takeWhile_append_dropWhile]
  rw [whole]
  refine Text.trimChars_surrounded ?_ backBlank (Text.head?_dropWhile_isBlank written) ?_
  · exact List.forall_mem_append.mpr ⟨frontBlank, fun c => List.mem_takeWhile_imp⟩
  · intro c ended
    have writtenLast : c ∈ written.getLast? := by
      rw [← List.takeWhile_append_dropWhile (p := Text.isBlank) (l := written), List.getLast?_append,
        Option.mem_def.mp ended]
      rfl
    rcases inserted.getLast?_cases c writtenLast with kept | rfl
    · exact last c kept
    · decide

end HasPredicates

end LeafrefTarget

/-- A path to a leaf in the list of a table: what stands before the list, and the names of the list and of the
leaf, each with that of its module if one is given. -/
structure LeafPath where
  ancestors : String
  listOwner : Option String
  table : String
  leafOwner : Option String
  leaf : String
  unopened : '[' ∉ ancestors.toList
  /-- If anything stands before the list, it ends in a slash. -/
  parted : ∀ c ∈ ancestors.toList.getLast?, c = '/'
  listOwned : ∀ owner ∈ listOwner, isName owner.toList
  tableNamed : isName table.toList
  leafOwned : ∀ owner ∈ leafOwner, isName owner.toList
  leafNamed : isName leaf.toList

namespace LeafPath

/-- A name behind that of its module, if one is given. -/
def qualified (owner : Option String) (name : String) : String :=
  match owner with
  | none => name
  | some owner => owner ++ ":" ++ name

/-- A path as a text without predicates. -/
def text (path : LeafPath) : String :=
  path.ancestors ++ qualified path.listOwner path.table ++ "_LIST/" ++ qualified path.leafOwner path.leaf

/-- The leaf that a path leads to. -/
def target (path : LeafPath) : LeafrefTarget :=
  ⟨path.table, path.leaf⟩

private theorem names_qualified {owner : Option String} {name : String} (named : isName name.toList)
    (owned : ∀ given ∈ owner, isName given.toList) :
    LeafrefTarget.Names (qualified owner name).toList name.toList := by
  refine ⟨named, ?_⟩
  cases owner with
  | none => exact .inl rfl
  | some owner =>
      refine .inr ⟨owner.toList, owned owner rfl, ?_⟩
      simp [qualified, String.toList_append]

private theorem list_names (path : LeafPath) :
    LeafrefTarget.Names (qualified path.listOwner path.table).toList path.table.toList :=
  names_qualified path.tableNamed path.listOwned

private theorem leaf_names (path : LeafPath) :
    LeafrefTarget.Names (qualified path.leafOwner path.leaf).toList path.leaf.toList :=
  names_qualified path.leafNamed path.leafOwned

private theorem toList_text (path : LeafPath) : path.text.toList = path.ancestors.toList ++
    ((qualified path.listOwner path.table).toList ++
      (LeafrefTarget.listEnding ++ '/' :: (qualified path.leafOwner path.leaf).toList)) := by
  have ending : "_LIST/".toList = LeafrefTarget.listEnding ++ ['/'] := by decide
  simp only [text, String.toList_append, ending, List.append_assoc, List.singleton_append]

open LeafrefTarget

/-- Behind the end of a step, or at the start, the list and the leaf of a path are the first ones named. -/
theorem isFirst_of_parted (path : LeafPath) {start : List Char}
    (parted : ∀ c ∈ start.getLast?, c = '/') :
    IsFirst (start ++ ((qualified path.listOwner path.table).toList ++
      (listEnding ++ '/' :: (qualified path.leafOwner path.leaf).toList))) path.target := by
  have found : Matches _ start path.target := ⟨_, _, rfl, path.list_names, path.leaf_names⟩
  refine found.isFirst ?_
  rintro other _ ⟨otherList, otherStep, whole, otherListNames, otherNames⟩
  obtain ⟨lists, _⟩ := same_steps rfl path.leaf_names whole otherNames
  rcases List.append_eq_append_iff.mp lists with ⟨more, rfl, _⟩ | ⟨more, rfl, rfl⟩
  · rw [List.length_append]
    exact Nat.le_add_right _ _
  · -- A match that starts earlier has a slash in the step that names the list.
    cases more using List.reverseRecOn with
    | nil => simp
    | append_singleton more c =>
        have slash : c = '/' := parted c (by simp)
        exact absurd (by simp [slash]) otherListNames.slash_notMem

/-- Blanks at the start of a path are taken off what stands before the list. -/
theorem exists_start (path : LeafPath) {blanks rest : List Char}
    (whole : path.text.toList = blanks ++ rest)
    (allBlank : ∀ c ∈ blanks, Text.isBlank c) : ∃ start, (∀ c ∈ start.getLast?, c = '/') ∧
      rest = start ++ ((qualified path.listOwner path.table).toList ++
        (listEnding ++ '/' :: (qualified path.leafOwner path.leaf).toList)) := by
  rw [toList_text] at whole
  rcases List.append_eq_append_iff.mp whole with ⟨more, rfl, cut⟩ | ⟨start, ancestors, rfl⟩
  · have listNames := path.list_names
    cases more with
    | nil => exact ⟨[], nofun, cut.symm⟩
    | cons c more =>
        -- Else the name of the list starts with a blank.
        obtain ⟨first, others, named⟩ := List.exists_cons_of_ne_nil listNames.ne_nil
        rw [named] at cut listNames
        obtain rfl : first = c := (List.cons.inj cut).1
        have blank := allBlank first (List.mem_append_right _ List.mem_cons_self)
        rw [listNames.not_isBlank first List.mem_cons_self] at blank
        cases blank
  · refine ⟨start, fun c last => path.parted c ?_, rfl⟩
    rw [ancestors, List.getLast?_append, Option.mem_def.mp last]
    rfl

/-- A path without predicates holds no bracket. -/
theorem bracket_notMem (path : LeafPath) : '[' ∉ path.text.toList := by
  rw [toList_text]
  simp only [List.mem_append, List.mem_cons, not_or]
  exact ⟨path.unopened, path.list_names.bracket_notMem, by decide, by decide,
    path.leaf_names.bracket_notMem⟩

private theorem getLast?_not_isBlank (path : LeafPath) :
    ∀ c ∈ path.text.toList.getLast?, Text.isBlank c = false := by
  intro c last
  rw [toList_text, List.getLast?_append_of_ne_nil _ (by simp), List.getLast?_append_of_ne_nil _ (by simp),
    List.getLast?_append_of_ne_nil _ (by simp), List.getLast?_cons_of_ne_nil path.leaf_names.ne_nil] at last
  exact path.leaf_names.not_isBlank c (List.mem_of_getLast? last)

/-- **Leafref paths lead to their targets.** A path to a leaf in the list of a table is read as the table and
the leaf, with any predicates in it and any blanks around it. Neither the name of the table, nor the steps
before the list, nor the predicates are taken for anything else if they name lists too. -/
theorem parse_of_hasPredicates (path : LeafPath) {written front back : String}
    (inserted : HasPredicates path.text.toList written.toList) (frontBlank : Text.allBlank front)
    (backBlank : Text.allBlank back) :
    parse? (front ++ written ++ back) = some ⟨path.table, path.leaf⟩ := by
  obtain ⟨blanks, rest, whole, allBlank, kept⟩ := inserted.exists_dropWhile
  have unopened : '[' ∉ rest := fun member =>
    path.bracket_notMem (whole ▸ List.mem_append_right blanks member)
  have stripped : plain (front ++ written ++ back) = rest := by
    rw [plain, Text.trim, String.toList_ofList, String.toList_append, String.toList_append,
      List.append_assoc, inserted.trimChars_eq (List.all_eq_true.mp frontBlank)
        (List.all_eq_true.mp backBlank) path.getLast?_not_isBlank]
    exact kept.withoutPredicates_eq unopened
  obtain ⟨start, parted, steps⟩ := path.exists_start whole allBlank
  refine parse?_eq_some_iff_isFirst.mpr ?_
  rw [stripped, steps]
  exact path.isFirst_of_parted parted

/-- A path below a list, to a table with the name of a list. -/
def membersPath : LeafPath where
  ancestors := "/m:A_LIST/"
  listOwner := some "x_LIST"
  table := "B_LIST"
  leafOwner := none
  leaf := "name"
  unopened := by decide
  parted := by
    rintro _ ⟨⟩
    rfl
  listOwned := by
    rintro _ ⟨⟩
    decide
  tableNamed := by decide
  leafOwned := nofun
  leafNamed := by decide

/-- The path with a predicate that names a list too, and with an empty one within the name of its list. -/
theorem parse_membersPath : membersPath.text = "/m:A_LIST/x_LIST:B_LIST_LIST/name" ∧
    parse? ("\t " ++ "/m:A_LIST[C_LIST/d]/x_LIST:B_L[]IST_LIST/name" ++ " ") =
      some ⟨"B_LIST", "name"⟩ := by
  have inserted : HasPredicates membersPath.text.toList
      "/m:A_LIST[C_LIST/d]/x_LIST:B_L[]IST_LIST/name".toList := by
    have ending := HasPredicates.nil.behind "IST_LIST/name".toList
    have noneEmpty : ']' ∉ "".toList := by decide
    have noneNaming : ']' ∉ "C_LIST/d".toList := by decide
    have inner := (HasPredicates.predicate noneEmpty ending).behind "/x_LIST:B_L".toList
    exact (HasPredicates.predicate noneNaming inner).behind "/m:A_LIST".toList
  exact ⟨by decide, parse_of_hasPredicates membersPath inserted (by decide) (by decide)⟩

end LeafPath

end ConfigVetting
