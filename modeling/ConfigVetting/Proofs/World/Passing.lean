import ConfigVetting.Proofs.World.Reading

/-! # When calls that only read are accepted

A call that only reads is accepted or rejected by what the stored rows are, but for an unavailable store.
What decides is put together from what decides of each of its steps (`ConfigVetting.WorldM.Passes`).
-/

namespace ConfigVetting

namespace WorldM

variable {setting : Setting} {world : World} {α β : Type}

/-- Whether a call is only accepted under a condition, with an answer of which something holds, and is
under that condition if the store is available, in all worlds that differ from a given one by reading
alone. -/
def Passes (setting : Setting) (world : World) (call : WorldM α) (condition : Prop) (holds : α → Prop) :
    Prop :=
  ∀ before, world.OnlyRead setting before →
    (∀ answer after, call.outcome before = (.ok answer, after) → condition ∧ holds answer) ∧
      (condition → before.store.available = true →
        ∃ answer after, call.outcome before = (.ok answer, after))

namespace Passes

variable {call : WorldM α} {next : α → WorldM β} {condition other : Prop} {holds : α → Prop}
  {result : β → Prop}

/-- A call that was accepted met its condition. -/
theorem of_accepted (passes : Passes setting world call condition holds) {answer : α} {later : World}
    (accepted : call.outcome world = (.ok answer, later)) : condition ∧ holds answer :=
  (passes world (.refl world)).1 answer later accepted

/-- With an available store, a call is accepted exactly if its condition holds. -/
theorem accepted_iff (passes : Passes setting world call condition holds)
    (available : world.store.available = true) :
    (∃ answer later, call.outcome world = (.ok answer, later)) ↔ condition :=
  ⟨fun ⟨_, _, accepted⟩ => (passes.of_accepted accepted).1, fun given =>
    (passes world (.refl world)).2 given available⟩

/-- The condition of a call may be put another way. -/
theorem congr (passes : Passes setting world call condition holds) (same : condition ↔ other) :
    Passes setting world call other holds :=
  same.eq ▸ passes

theorem pure {answer : α} (given : condition) (is : holds answer) :
    Passes setting world (pure answer) condition holds := by
  refine fun before _ => ⟨fun same after answered => ?_, fun _ _ => ⟨answer, before, rfl⟩⟩
  cases answered
  exact ⟨given, is⟩

theorem throw (rejection : Rejection) (fails : ¬ condition) :
    Passes setting world (throw rejection : WorldM α) condition holds := by
  refine fun before _ => ⟨fun answer after answered => ?_, fun given => absurd given fails⟩
  cases answered

/-- A call that goes on with the answer of another one. -/
theorem bind (reads : call.IsReading setting) (passes : Passes setting world call condition holds)
    (rest : ∀ answer, holds answer → Passes setting world (next answer) other result) :
    Passes setting world (call >>= next) (condition ∧ other) result := by
  intro before read
  constructor
  · intro answer after accepted
    obtain ⟨first, middle, stepped, answered⟩ := outcome_bind_eq_ok_iff.mp accepted
    obtain ⟨own, is⟩ := (passes before read).1 first middle stepped
    obtain ⟨others, isResult⟩ :=
      (rest first is middle (read.trans (reads.onlyRead stepped))).1 answer after answered
    exact ⟨⟨own, others⟩, isResult⟩
  · rintro ⟨own, others⟩ available
    obtain ⟨first, middle, stepped⟩ := (passes before read).2 own available
    have is := ((passes before read).1 first middle stepped).2
    have middleRead := reads.onlyRead stepped
    obtain ⟨answer, after, answered⟩ := (rest first is middle (read.trans middleRead)).2 others
      (middleRead.available.trans available)
    exact ⟨answer, after, outcome_bind_eq_ok_iff.mpr ⟨first, middle, stepped, answered⟩⟩

/-- A call that goes on with the answer of another one that is only rejected if the store is not
available. -/
theorem andThen (reads : call.IsReading setting) (passes : Passes setting world call True holds)
    (rest : ∀ answer, holds answer → Passes setting world (next answer) condition result) :
    Passes setting world (call >>= next) condition result :=
  (passes.bind reads rest).congr (iff_of_eq (true_and condition))

/-- A loop whose steps pass, whatever its state is, as long as something holds of it. -/
theorem foldlM {next : β → α → WorldM β} {condition : α → Prop}
    (reads : ∀ state item, (next state item).IsReading setting)
    (passes : ∀ state item, result state → Passes setting world (next state item) (condition item) result)
    {items : List α} {first : β} (is : result first) :
    Passes setting world (items.foldlM next first) (∀ item ∈ items, condition item) result := by
  induction items generalizing first with
  | nil => exact pure (List.forall_mem_nil _) is
  | cons item items ih =>
      rw [List.foldlM_cons]
      exact ((passes first item is).bind (reads first item) fun state isState => ih isState).congr
        List.forall_mem_cons.symm

/-- A loop passes if each of its calls does. -/
theorem forM {next : α → WorldM Unit} {condition : α → Prop} {items : List α}
    (reads : ∀ item, (next item).IsReading setting)
    (passes : ∀ item ∈ items, Passes setting world (next item) (condition item) fun _ => True) :
    Passes setting world (items.forM next) (∀ item ∈ items, condition item) fun _ => True := by
  induction items with
  | nil => exact pure (List.forall_mem_nil _) trivial
  | cons item items ih =>
      rw [List.forall_mem_cons] at passes
      exact (passes.1.bind (reads item) fun _ _ => ih passes.2).congr List.forall_mem_cons.symm

/-- A request that reads is answered from the stored rows. -/
theorem askStore {request : StoreM α} {answer : ByName Fields → α} (isRead : request.IsRead answer)
    (served : request.IsServed) :
    Passes setting world (World.askStore request) True (· = answer world.store.rows) := by
  refine fun before read => ⟨fun given after accepted => ⟨trivial, ?_⟩, fun _ available => ?_⟩
  · rw [World.eq_of_outcome_askStore isRead accepted, read.rows]
  · obtain ⟨stats, answered⟩ := World.exists_outcome_askStore isRead served available
    exact ⟨_, _, answered⟩

end Passes

end WorldM

end ConfigVetting
