import ConfigVetting.Proofs.Steps
import Mathlib.Order.Defs.Unbundled

/-! # Computations on a state

The outcome of a composed computation is put together from those of its parts, and it gives an answer exactly
if all of its parts do (`ConfigVetting.Stateful.outcome_bind_eq_ok_iff`). A computation is confined if it only
stops with faults of some kind, and only leads to states that are in some relation to those before
(`ConfigVetting.Stateful.IsConfined`). One that is put together from confined ones is confined, and one that is
put together from those that always go through goes through (`ConfigVetting.Stateful.GoesThrough`).
-/

namespace ConfigVetting.Stateful

variable {ε σ α β : Type}

/-- The answer or fault of a computation on a state, and the state after it. -/
def outcome (step : ExceptT ε (StateM σ) α) (state : σ) : Except ε α × σ :=
  StateT.run (m := Id) (ExceptT.run step) state

/-- Whether a computation may give an answer. -/
def Gives (step : ExceptT ε (StateM σ) α) (answer : α) : Prop :=
  ∃ state later, outcome step state = (.ok answer, later)

/-- Whether a computation, on any state, only stops with faults of some kind and only leads to states that
are in some relation to the one before. -/
def IsConfined (allowed : ε → Prop) (leads : σ → σ → Prop) (step : ExceptT ε (StateM σ) α) : Prop :=
  ∀ state, Except.FailsOnly allowed (outcome step state).1 ∧ leads state (outcome step state).2

private theorem outcome_except (step : Except ε α) (state : σ) :
    outcome (liftM step : ExceptT ε (StateM σ) α) state = (step, state) := by
  cases step <;> rfl

/-- A composed computation goes on with what its first part answers, and stops where that does. -/
theorem outcome_bind (step : ExceptT ε (StateM σ) α) (next : α → ExceptT ε (StateM σ) β) (state : σ) :
    outcome (step >>= next) state =
      match outcome step state with
      | (.ok answer, later) => outcome (next answer) later
      | (.error fault, later) => (.error fault, later) := by
  unfold outcome
  simp only [ExceptT.run_bind, StateT.run_bind]
  change (match (StateT.run (m := Id) (ExceptT.run step) state).1 with | _ => _) = _
  rcases StateT.run (m := Id) (ExceptT.run step) state with ⟨answer, later⟩
  cases answer <;> rfl

/-- A composed computation gives an answer exactly if both of its parts do. -/
theorem outcome_bind_eq_ok_iff {step : ExceptT ε (StateM σ) α} {next : α → ExceptT ε (StateM σ) β}
    {state later : σ} {answer : β} :
    outcome (step >>= next) state = (.ok answer, later) ↔
      ∃ first middle, outcome step state = (.ok first, middle) ∧
        outcome (next first) middle = (.ok answer, later) := by
  rw [outcome_bind]
  rcases outcome step state with ⟨answer, middle⟩
  cases answer with
  | error fault =>
      constructor
      · intro given
        cases given
      · rintro ⟨first, middle, impossible, _⟩
        cases impossible
  | ok first =>
      constructor
      · exact fun given => ⟨first, middle, rfl, given⟩
      · rintro ⟨_, _, same, given⟩
        cases same
        exact given

/-- What holds of a state before a loop and is kept by each of its steps that does not stop holds after it. -/
theorem forM_invariant {next : α → ExceptT ε (StateM σ) PUnit} {items : List α} (Holds : σ → Prop)
    (keeps : ∀ item ∈ items, ∀ state later, Holds state →
      outcome (next item) state = (.ok ⟨⟩, later) → Holds later)
    {state later : σ} (before : Holds state)
    (given : outcome (items.forM next) state = (.ok ⟨⟩, later)) : Holds later := by
  induction items generalizing state with
  | nil =>
      cases given
      exact before
  | cons item items ih =>
      rw [List.forall_mem_cons] at keeps
      obtain ⟨_, middle, stepped, rest⟩ := outcome_bind_eq_ok_iff.mp given
      exact ih keeps.2 (keeps.1 state middle before stepped) rest

/-- A step outside of the state gives its own answer only. -/
theorem gives_except {step : Except ε α} {answer : α}
    (gives : Gives (liftM step : ExceptT ε (StateM σ) α) answer) : step = .ok answer := by
  obtain ⟨state, later, given⟩ := gives
  rw [outcome_except] at given
  exact congrArg Prod.fst given

/-- Whether a computation gives an answer on every state. -/
def GoesThrough (step : ExceptT ε (StateM σ) PUnit) : Prop :=
  ∀ state, (outcome step state).1 = .ok ⟨⟩

namespace GoesThrough

theorem pure : GoesThrough (pure ⟨⟩ : ExceptT ε (StateM σ) PUnit) :=
  fun _ => rfl

theorem bind {step : ExceptT ε (StateM σ) PUnit} {next : PUnit → ExceptT ε (StateM σ) PUnit}
    (first : GoesThrough step) (rest : GoesThrough (next ⟨⟩)) : GoesThrough (step >>= next) := by
  intro state
  have done := first state
  rw [outcome_bind]
  rcases split : outcome step state with ⟨answer, later⟩
  rw [split] at done
  cases done
  exact rest later

theorem exceptBind {step : Except ε α} {answer : α} {next : α → ExceptT ε (StateM σ) PUnit}
    (stepped : step = .ok answer) (rest : GoesThrough (next answer)) :
    GoesThrough ((liftM step : ExceptT ε (StateM σ) α) >>= next) := by
  intro state
  rw [outcome_bind, outcome_except, stepped]
  exact rest state

theorem getBind {next : σ → ExceptT ε (StateM σ) PUnit} (rest : ∀ state, GoesThrough (next state)) :
    GoesThrough ((get : ExceptT ε (StateM σ) σ) >>= next) := by
  intro state
  rw [outcome_bind]
  exact rest state state

theorem forM {next : α → ExceptT ε (StateM σ) PUnit} {items : List α}
    (each : ∀ item ∈ items, GoesThrough (next item)) : GoesThrough (items.forM next) := by
  induction items with
  | nil => exact pure
  | cons item items ih =>
      rw [List.forall_mem_cons] at each
      exact each.1.bind (ih each.2)

end GoesThrough

namespace IsConfined

variable {allowed : ε → Prop} {leads : σ → σ → Prop}

section Refl

variable [Std.Refl leads]

theorem pure (answer : α) : IsConfined allowed leads (pure answer : ExceptT ε (StateM σ) α) :=
  fun state => ⟨.ok answer, Std.Refl.refl state⟩

theorem throw {fault : ε} (allows : allowed fault) :
    IsConfined allowed leads (throw fault : ExceptT ε (StateM σ) α) :=
  fun state => ⟨.error allows, Std.Refl.refl state⟩

/-- A step outside of the state. -/
theorem except {step : Except ε α} (fails : Except.FailsOnly allowed step) :
    IsConfined allowed leads (liftM step : ExceptT ε (StateM σ) α) := by
  intro state
  rw [outcome_except]
  exact ⟨fails, Std.Refl.refl state⟩

theorem get : IsConfined allowed leads (get : ExceptT ε (StateM σ) σ) :=
  fun state => ⟨.ok state, Std.Refl.refl state⟩

end Refl

/-- A step that cannot stop. -/
theorem state {step : StateM σ α} (steps : ∀ state, leads state (StateT.run (m := Id) step state).2) :
    IsConfined allowed leads (liftM step : ExceptT ε (StateM σ) α) :=
  fun state => ⟨.ok _, steps state⟩

theorem modify {change : σ → σ} (changes : ∀ state, leads state (change state)) :
    IsConfined allowed leads (modify change : ExceptT ε (StateM σ) PUnit) :=
  fun state => ⟨.ok _, changes state⟩

theorem bind [IsTrans σ leads] {step : ExceptT ε (StateM σ) α} {next : α → ExceptT ε (StateM σ) β}
    (first : IsConfined allowed leads step)
    (rest : ∀ answer, Gives step answer → IsConfined allowed leads (next answer)) :
    IsConfined allowed leads (step >>= next) := by
  intro state
  obtain ⟨fails, led⟩ := first state
  rw [outcome_bind]
  rcases split : outcome step state with ⟨answer, later⟩
  rw [split] at fails led
  cases answer with
  | error fault => exact ⟨.error (fails fault rfl), led⟩
  | ok answer =>
      obtain ⟨failsNext, ledNext⟩ := rest answer ⟨state, later, split⟩ later
      exact ⟨failsNext, Trans.trans led ledNext⟩

theorem ite {condition : Prop} [Decidable condition] {step other : ExceptT ε (StateM σ) α}
    (whenTrue : condition → IsConfined allowed leads step)
    (whenFalse : ¬ condition → IsConfined allowed leads other) :
    IsConfined allowed leads (if condition then step else other) := by
  by_cases holds : condition
  · rw [if_pos holds]
    exact whenTrue holds
  · rw [if_neg holds]
    exact whenFalse holds

variable [Std.Refl leads] [IsTrans σ leads]

theorem forM {next : α → ExceptT ε (StateM σ) PUnit} {items : List α}
    (each : ∀ item ∈ items, IsConfined allowed leads (next item)) :
    IsConfined allowed leads (items.forM next) := by
  induction items with
  | nil => exact pure _
  | cons item items ih =>
      rw [List.forall_mem_cons] at each
      exact each.1.bind fun _ _ => ih each.2

theorem foldlM {next : β → α → ExceptT ε (StateM σ) β}
    (each : ∀ state item, IsConfined allowed leads (next state item)) (items : List α) (first : β) :
    IsConfined allowed leads (items.foldlM next first) := by
  induction items generalizing first with
  | nil => exact pure first
  | cons item items ih =>
      rw [List.foldlM_cons]
      exact (each first item).bind fun state _ => ih state

theorem mapM {next : α → ExceptT ε (StateM σ) β}
    (each : ∀ item, IsConfined allowed leads (next item)) (items : List α) :
    IsConfined allowed leads (items.mapM next) := by
  induction items with
  | nil => exact pure []
  | cons item items ih =>
      rw [List.mapM_cons]
      exact (each item).bind fun _ _ => ih.bind fun _ _ => pure _

theorem discard {step : ExceptT ε (StateM σ) α} (confined : IsConfined allowed leads step) :
    IsConfined allowed leads (discard step : ExceptT ε (StateM σ) PUnit) :=
  confined.bind fun _ _ => pure _

end IsConfined

end ConfigVetting.Stateful
