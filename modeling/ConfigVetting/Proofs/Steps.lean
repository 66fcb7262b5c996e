import Mathlib.Data.List.Forall2

/-! # Loops that may stop

Computations that stop at their first fault, taken apart: one that finished had each of its steps
finish.
-/

namespace ConfigVetting.Except

variable {ε α β : Type}

/-- A composed step finishes exactly if both of its parts do. -/
theorem bind_eq_ok_iff {step : Except ε α} {next : α → Except ε β} {answer : β} :
    (step >>= next) = .ok answer ↔ ∃ first, step = .ok first ∧ next first = .ok answer := by
  cases step with
  | error fault =>
      constructor
      · intro finished
        cases finished
      · rintro ⟨first, impossible, _⟩
        cases impossible
  | ok first =>
      constructor
      · exact fun finished => ⟨first, rfl, finished⟩
      · rintro ⟨_, same, finished⟩
        cases same
        exact finished

theorem exists_of_isOk {step : Except ε α} (finished : step.isOk) : ∃ answer, step = .ok answer := by
  cases step with
  | error fault => cases finished
  | ok answer => exact ⟨answer, rfl⟩

theorem toOption_eq_some_iff {step : Except ε α} {answer : α} :
    step.toOption = some answer ↔ step = .ok answer := by
  cases step <;> simp [Except.toOption]

theorem map_eq_ok_iff {step : Except ε α} {change : α → β} {answer : β} :
    step.map change = .ok answer ↔ ∃ first, step = .ok first ∧ change first = answer := by
  cases step with
  | error fault => simp [Except.map]
  | ok first => simp [Except.map]

theorem mapError_eq_ok_iff {δ : Type} {step : Except ε α} {change : ε → δ} {answer : α} :
    step.mapError change = .ok answer ↔ step = .ok answer := by
  cases step with
  | error fault => simp [Except.mapError]
  | ok first => simp [Except.mapError]

/-- A composed step stops where one of its parts does. -/
theorem bind_eq_error_iff {step : Except ε α} {next : α → Except ε β} {fault : ε} :
    (step >>= next) = .error fault ↔
      step = .error fault ∨ ∃ first, step = .ok first ∧ next first = .error fault := by
  cases step with
  | error early => simp [bind, Except.bind]
  | ok first => simp [bind, Except.bind]

/-- A step whose fault is translated stops with the translation of its fault. -/
theorem mapError_eq_error_iff {δ : Type} {step : Except ε α} {change : ε → δ} {fault : δ} :
    step.mapError change = .error fault ↔ ∃ cause, step = .error cause ∧ change cause = fault := by
  cases step with
  | error cause => simp [Except.mapError]
  | ok answer => simp [Except.mapError]

/-- What holds of the state before a loop and is kept by each of its steps holds after it. -/
theorem foldlM_invariant {step : β → α → Except ε β} {items : List α} (Holds : β → Prop)
    (keeps : ∀ state item later, Holds state → step state item = .ok later → Holds later)
    {first last : β} (before : Holds first) (finished : items.foldlM step first = .ok last) :
    Holds last := by
  induction items generalizing first with
  | nil =>
      cases finished
      exact before
  | cons item items ih =>
      rw [List.foldlM_cons] at finished
      obtain ⟨middle, stepped, rest⟩ := bind_eq_ok_iff.mp finished
      exact ih (keeps first item middle before stepped) rest

/-- What each step makes true of its own item, and no later step undoes, holds of all items after a
loop. -/
theorem foldlM_all {step : β → α → Except ε β} {items : List α} (Has : α → β → Prop)
    (makes : ∀ state item later, step state item = .ok later → Has item later)
    (keeps : ∀ other state item later, Has other state → step state item = .ok later → Has other later)
    {first last : β} (finished : items.foldlM step first = .ok last) :
    ∀ item ∈ items, Has item last := by
  induction items generalizing first with
  | nil => exact fun _ member => nomatch member
  | cons item items ih =>
      rw [List.foldlM_cons] at finished
      obtain ⟨middle, stepped, rest⟩ := bind_eq_ok_iff.mp finished
      rw [List.forall_mem_cons]
      exact ⟨foldlM_invariant (Has item) (keeps item) (makes first item middle stepped) rest, ih rest⟩

/-- A finished loop over a list finished at each item. -/
theorem forM_eq_ok_iff {step : α → Except ε Unit} {items : List α} :
    items.forM step = .ok () ↔ ∀ item ∈ items, step item = .ok () := by
  induction items with
  | nil => simp [pure, Except.pure]
  | cons item items ih =>
      have unfolded : (item :: items).forM step = (step item >>= fun _ => items.forM step) := rfl
      rw [unfolded, bind_eq_ok_iff, List.forall_mem_cons, ih]
      constructor
      · rintro ⟨_, stepped, rest⟩
        exact ⟨stepped, rest⟩
      · rintro ⟨stepped, rest⟩
        exact ⟨_, stepped, rest⟩

/-- The results of a finished loop, item by item. -/
theorem mapM_eq_ok_iff {step : α → Except ε β} {items : List α} {results : List β} :
    items.mapM step = .ok results ↔ List.Forall₂ (fun item result => step item = .ok result)
      items results := by
  induction items generalizing results with
  | nil =>
      rw [List.mapM_nil]
      constructor
      · intro finished
        cases finished
        exact .nil
      · intro related
        cases related
        rfl
  | cons item items ih =>
      rw [List.mapM_cons, bind_eq_ok_iff]
      constructor
      · rintro ⟨first, stepped, rest⟩
        obtain ⟨others, finished, answered⟩ := bind_eq_ok_iff.mp rest
        cases answered
        exact .cons stepped (ih.mp finished)
      · intro related
        cases related with
        | cons stepped rest =>
            refine ⟨_, stepped, bind_eq_ok_iff.mpr ⟨_, ih.mpr rest, rfl⟩⟩

/-- A loop finishes if each of its steps does. -/
theorem exists_mapM_eq_ok {step : α → Except ε β} {items : List α}
    (each : ∀ item ∈ items, ∃ result, step item = .ok result) :
    ∃ results, items.mapM step = .ok results := by
  induction items with
  | nil => exact ⟨[], rfl⟩
  | cons item items ih =>
      rw [List.forall_mem_cons] at each
      obtain ⟨first, stepped⟩ := each.1
      obtain ⟨others, finished⟩ := ih each.2
      refine ⟨first :: others, ?_⟩
      rw [List.mapM_cons, stepped]
      exact bind_eq_ok_iff.mpr ⟨_, rfl, bind_eq_ok_iff.mpr ⟨_, finished, rfl⟩⟩

/-- Whether a computation that stops does so with a fault of some kind. -/
def FailsOnly (allowed : ε → Prop) (step : Except ε α) : Prop :=
  ∀ fault, step = .error fault → allowed fault

namespace FailsOnly

variable {allowed : ε → Prop}

theorem ok (answer : α) : FailsOnly allowed (.ok answer) := nofun

theorem error {fault : ε} (allows : allowed fault) : FailsOnly allowed (.error fault : Except ε α) := by
  intro other same
  cases same
  exact allows

/-- A composed step stops only with faults of its parts. -/
theorem bind {step : Except ε α} {next : α → Except ε β} (first : FailsOnly allowed step)
    (rest : ∀ answer, step = .ok answer → FailsOnly allowed (next answer)) :
    FailsOnly allowed (step >>= next) := by
  cases step with
  | error fault =>
      intro other same
      cases same
      exact first fault rfl
  | ok answer => exact rest answer rfl

/-- A step that stops only with some faults stops only with any wider kind of them. -/
theorem mono {other : ε → Prop} {step : Except ε α} (fails : FailsOnly allowed step)
    (wider : ∀ fault, allowed fault → other fault) : FailsOnly other step :=
  fun fault failed => wider fault (fails fault failed)

theorem map {step : Except ε α} (fails : FailsOnly allowed step) (change : α → β) :
    FailsOnly allowed (step.map change) := by
  cases step with
  | error fault => exact error (fails fault rfl)
  | ok answer => exact ok (change answer)

/-- A loop stops with the fault of one of its steps. -/
theorem forM {step : α → Except ε Unit} {items : List α}
    (each : ∀ item ∈ items, FailsOnly allowed (step item)) : FailsOnly allowed (items.forM step) := by
  induction items with
  | nil => exact ok ()
  | cons item items ih =>
      rw [List.forall_mem_cons] at each
      exact bind each.1 fun _ _ => ih each.2

theorem foldlM {step : β → α → Except ε β} {items : List α}
    (each : ∀ state, ∀ item ∈ items, FailsOnly allowed (step state item)) (state : β) :
    FailsOnly allowed (items.foldlM step state) := by
  induction items generalizing state with
  | nil => exact ok state
  | cons item items ih =>
      rw [List.foldlM_cons]
      exact bind (each state item List.mem_cons_self) fun later _ =>
        ih (fun state other member => each state other (List.mem_cons_of_mem _ member)) later

/-- A loop stops only with faults of its steps. -/
theorem mapM {step : α → Except ε β} {items : List α}
    (each : ∀ item ∈ items, FailsOnly allowed (step item)) : FailsOnly allowed (items.mapM step) := by
  induction items with
  | nil => exact ok []
  | cons item items ih =>
      rw [List.forall_mem_cons] at each
      rw [List.mapM_cons]
      exact bind each.1 fun _ _ => bind (ih each.2) fun _ _ => ok _

end FailsOnly

/-- Each item on the right of related lists is related to one on the left. -/
theorem exists_of_mem_right {related : α → β → Prop} {items : List α} {results : List β}
    (whole : List.Forall₂ related items results) {result : β} (member : result ∈ results) :
    ∃ item ∈ items, related item result := by
  induction whole with
  | nil => cases member
  | cons head _ ih =>
      rcases List.mem_cons.mp member with rfl | later
      · exact ⟨_, List.mem_cons_self, head⟩
      · obtain ⟨item, inside, found⟩ := ih later
        exact ⟨item, List.mem_cons_of_mem _ inside, found⟩

/-- Each item on the left of related lists is related to one on the right. -/
theorem exists_of_mem_left {related : α → β → Prop} {items : List α} {results : List β}
    (whole : List.Forall₂ related items results) {item : α} (member : item ∈ items) :
    ∃ result ∈ results, related item result := by
  obtain ⟨result, inside, found⟩ := exists_of_mem_right whole.flip member
  exact ⟨result, inside, found⟩

end ConfigVetting.Except
