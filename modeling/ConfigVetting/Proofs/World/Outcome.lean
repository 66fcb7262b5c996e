import ConfigVetting.Proofs.Confined
import ConfigVetting.World

/-! # Outcomes of calls

What a call answers and the world it leaves. The outcome of a composed call is put together from
those of its parts, and an accepted call had all its parts accepted
(`ConfigVetting.WorldM.outcome_bind_eq_ok_iff`).
-/

namespace ConfigVetting

variable {α β : Type}

namespace World

/-- A composed step goes on from the world that its first part leaves. -/
theorem run_bind (step : StateM World α) (next : α → StateM World β) (world : World) :
    run (step >>= next) world = run (next (run step world).1) (run step world).2 := rfl

end World

namespace WorldM

/-- The answer or rejection of a call in a world, and the world after it. -/
def outcome (call : WorldM α) (world : World) : Except Rejection α × World :=
  World.run call.run world

theorem run_run (call : WorldM α) (world : World) : World.run call.run world = call.outcome world :=
  rfl

@[simp]
theorem outcome_pure (answer : α) (world : World) :
    (pure answer : WorldM α).outcome world = (.ok answer, world) := rfl

@[simp]
theorem outcome_throw (rejection : Rejection) (world : World) :
    (throw rejection : WorldM α).outcome world = (.error rejection, world) := rfl

@[simp]
theorem outcome_get (world : World) : (get : WorldM World).outcome world = (.ok world, world) := rfl

@[simp]
theorem outcome_modify (change : World → World) (world : World) :
    (modify change : WorldM Unit).outcome world = (.ok (), change world) := rfl

/-- A step outside of the world leaves the world. -/
@[simp]
theorem outcome_except (step : Except Rejection α) (world : World) :
    (liftM step : WorldM α).outcome world = (step, world) := by
  cases step <;> rfl

/-- A step outside of the world leaves it as it was. -/
theorem outcome_except_eq_ok_iff {step : Except Rejection α} {world later : World} {answer : α} :
    (liftM step : WorldM α).outcome world = (.ok answer, later) ↔
      step = .ok answer ∧ later = world := by
  rw [outcome_except, Prod.mk.injEq, eq_comm (a := world)]

/-- A step that cannot be rejected. -/
@[simp]
theorem outcome_state (step : StateM World α) (world : World) :
    (liftM step : WorldM α).outcome world =
      (.ok (World.run step world).1, (World.run step world).2) := rfl

/-- A composed call goes on from the world that its first part leaves, and is rejected where that is. -/
theorem outcome_bind (call : WorldM α) (next : α → WorldM β) (world : World) :
    (call >>= next).outcome world =
      match call.outcome world with
      | (.ok answer, later) => (next answer).outcome later
      | (.error rejection, later) => (.error rejection, later) := by
  refine (Stateful.outcome_bind call next world).trans ?_
  rw [show Stateful.outcome call world = call.outcome world from rfl]
  rcases call.outcome world with ⟨answer, later⟩
  cases answer <;> rfl

/-- A composed call is accepted exactly if both of its parts are. -/
theorem outcome_bind_eq_ok_iff {call : WorldM α} {next : α → WorldM β} {world later : World}
    {answer : β} :
    (call >>= next).outcome world = (.ok answer, later) ↔
      ∃ first middle, call.outcome world = (.ok first, middle) ∧
        (next first).outcome middle = (.ok answer, later) :=
  Stateful.outcome_bind_eq_ok_iff

theorem exists_outcome_of_isOk {call : WorldM α} {world : World}
    (accepted : (call.outcome world).1.isOk) :
    ∃ answer later, call.outcome world = (.ok answer, later) := by
  obtain ⟨answer, same⟩ := Except.exists_of_isOk accepted
  exact ⟨answer, _, Prod.ext same rfl⟩

theorem exists_outcome_of_toOption {call : WorldM α} {world : World} {answer : α}
    (accepted : (call.outcome world).1.toOption = some answer) :
    ∃ later, call.outcome world = (.ok answer, later) :=
  ⟨_, Prod.ext (Except.toOption_eq_some_iff.mp accepted) rfl⟩

/-- What holds of a world before a loop and is kept by each of its accepted calls holds after it. -/
theorem forM_invariant {call : α → WorldM Unit} {items : List α} (Holds : World → Prop)
    (keeps : ∀ item ∈ items, ∀ world later, Holds world →
      (call item).outcome world = (.ok (), later) → Holds later)
    {world later : World} (before : Holds world)
    (accepted : (items.forM call).outcome world = (.ok (), later)) : Holds later :=
  Stateful.forM_invariant Holds keeps before accepted

/-- Whether a call is not rejected in any world. -/
def GoesThrough (call : WorldM Unit) : Prop :=
  ∀ world : World, (call.outcome world).1 = .ok ()

namespace GoesThrough

theorem pure : (pure () : WorldM Unit).GoesThrough :=
  fun _ => rfl

theorem state (step : StateM World Unit) : GoesThrough (liftM step : WorldM Unit) :=
  fun _ => rfl

theorem bind {call : WorldM Unit} {next : Unit → WorldM Unit} (first : call.GoesThrough)
    (rest : (next ()).GoesThrough) : (call >>= next).GoesThrough :=
  Stateful.GoesThrough.bind first rest

theorem exceptBind {step : Except Rejection α} {answer : α} {next : α → WorldM Unit}
    (stepped : step = .ok answer) (rest : (next answer).GoesThrough) :
    ((liftM step : WorldM α) >>= next).GoesThrough :=
  Stateful.GoesThrough.exceptBind stepped rest

theorem getBind {next : World → WorldM Unit} (rest : ∀ world, (next world).GoesThrough) :
    ((get : WorldM World) >>= next).GoesThrough :=
  Stateful.GoesThrough.getBind rest

theorem forM {call : α → WorldM Unit} {items : List α}
    (each : ∀ item ∈ items, (call item).GoesThrough) : (items.forM call).GoesThrough :=
  Stateful.GoesThrough.forM each

end GoesThrough

end WorldM

end ConfigVetting
