import ConfigVetting.Proofs.Cache.Expiry
import ConfigVetting.Proofs.Decimal.Rounding
import ConfigVetting.Proofs.World.Bounds

/-! # Counts of uses

Each read of a registered table is counted once, whether it found the document, built it anew or failed to
(`ConfigVetting.Cache.reads_of_read`). The share of reads that found their document is at most one, in spite of
its three roundings (`ConfigVetting.CacheStats.hitRatio_le_one`): the counts are rounded in their order, and so
is a quotient that is at most one.
-/

namespace ConfigVetting

/-! ## Counted reads -/

/-- Whether the reads counted in two worlds are as many. -/
def World.SameReads (before after : World) : Prop :=
  after.cache.stats.reads = before.cache.stats.reads

instance : Std.Refl World.SameReads :=
  ⟨fun _ => rfl⟩

instance : IsTrans World World.SameReads :=
  ⟨fun _ _ _ first second => Eq.trans second first⟩

namespace Cache

open Stateful WorldM

private theorem bounds_sameReads : WorldM.Bounds (fun _ => True) World.SameReads where
  expected _ _ := trivial
  counts _ _ := rfl
  notes _ _ := rfl

/-- Building a document anew does not count as a read. -/
theorem sameReads_rebuild (setting : Setting) (name : String) (expirySecs : Nat) (world : World) :
    World.SameReads world ((rebuild setting name expirySecs).outcome world).2 := by
  have put (document : Document) : IsConfined (fun _ => True) World.SameReads
      (liftM (putBuilt name document expirySecs) : WorldM Unit) :=
    .state fun _ => rfl
  have confined : IsConfined (fun _ => True) World.SameReads (rebuild setting name expirySecs) :=
    (bounds_sameReads.build setting name).bind fun document _ => (put document).bind fun _ _ => .pure _
  exact (confined world).2

/-- Each read of a registered table is counted once, and no other read is. -/
theorem reads_of_read (setting : Setting) (name : String) (world : World) :
    ((read setting name).outcome world).2.cache.stats.reads =
      world.cache.stats.reads + if name ∈ world.cache.entries then 1 else 0 := by
  cases registered : world.cache.entries[name]? with
  | none =>
      have absent : name ∉ world.cache.entries := by simpa using registered
      rw [outcome_read_of_unregistered registered, if_neg absent, add_zero]
  | some entry =>
      have there : name ∈ world.cache.entries := by simp [Std.ExtTreeMap.mem_iff_isSome_getElem?, registered]
      rw [if_pos there]
      cases current : currentDocument entry world.clock with
      | some document =>
          rw [outcome_read_of_current registered current]
          exact Nat.add_right_comm _ _ _
      | none =>
          rw [outcome_read_of_outdated registered current]
          exact sameReads_rebuild setting name entry.expirySecs (missed name world)

end Cache

/-! ## The share of hits -/

namespace CacheStats

open Binary64

variable {stats : CacheStats} {ratio : Binary64}

/-- The share of reads that found their document is at most one. -/
theorem hitRatio_le_one (given : stats.hitRatio = some ratio) : ratio.size ≤ 1 := by
  unfold hitRatio at given
  by_cases unused : stats.reads = 0
  · rw [if_pos unused] at given
    cases given
    rw [size_zero]
    exact zero_le_one
  rw [if_neg unused] at given
  obtain ⟨hits, hitsRounded, rest⟩ := Option.bind_eq_some_iff.mp given
  obtain ⟨reads, readsRounded, divided⟩ := Option.bind_eq_some_iff.mp rest
  have one : ofQuotient? 1 1 = some ⟨false, 2 ^ 52, -52⟩ := by decide
  have oneSize : size ⟨false, 2 ^ 52, -52⟩ = 1 := by norm_num [size]
  -- The counts are rounded in their order, and no count is rounded to zero.
  have ordered : hits.size ≤ reads.size := by
    refine size_ofQuotient?_mono Nat.one_pos Nat.one_pos ?_ hitsRounded readsRounded
    simp [CacheStats.reads]
  have positive : 1 ≤ reads.size := by
    rw [← oneSize]
    refine size_ofQuotient?_mono Nat.one_pos Nat.one_pos ?_ one readsRounded
    simpa using Nat.one_le_iff_ne_zero.mpr unused
  have readsPositive : 0 < reads.ratio.1 := by
    by_contra none
    have zero : reads.ratio.1 = 0 := by omega
    rw [← ratio_eq_size, zero, Nat.cast_zero, zero_div] at positive
    exact absurd positive (not_le.mpr zero_lt_one)
  rw [← oneSize]
  refine size_ofQuotient?_mono (Nat.mul_pos hits.ratio_pos readsPositive) Nat.one_pos ?_ divided one
  push_cast
  rw [mul_div_mul_comm, ratio_eq_size, ← inv_div (reads.ratio.1 : ℚ), ratio_eq_size, div_one,
    ← div_eq_mul_inv]
  exact div_le_one_of_le₀ ordered (size_nonneg reads)

end CacheStats

end ConfigVetting
