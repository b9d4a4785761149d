import Mathlib.Algebra.Group.Nat.Defs
import Mathlib.Data.List.Range
import Mathlib.Order.MinMax
import Reassembly.Http.Retry

/-!
# How the waits before retries grow

The wait before a retry is a multiple of the base delay, and no longer than the longest duration. Its factor doubles
with every retry while it fits in 32 bits, and stays as it is from there on. Since retries are counted in 32 bits as
well, the factors begin again from one when the count has come around: this is the only place where a wait may be
shorter than one before it.
-/

namespace Reassembly.RetryPolicy

variable {base : Duration} {i j : Nat}

/-- The factor doubles with each of the first retries. -/
theorem factor_of_lt (h : i < 32) : factor i = 2 ^ i := by
  have hcounted : i % counterBound = i := Nat.mod_eq_of_lt (h.trans (by decide))
  rw [factor, hcounted]
  exact if_pos h

/-- The factor stays as it is when it can grow no more. -/
theorem factor_of_le (h : 32 ≤ i) (hcounted : i < counterBound) : factor i = maxFactor := by
  rw [factor, Nat.mod_eq_of_lt hcounted]
  exact if_neg (Nat.not_lt.mpr h)

/-- The factor depends on the retry as it is counted. -/
theorem factor_mod (i : Nat) : factor (i % counterBound) = factor i := by
  rw [factor, factor, Nat.mod_mod]

/-- A power of two with less than 32 places is a factor that does not end the doubling. -/
theorem pow_le_maxFactor (h : i < 32) : 2 ^ i ≤ maxFactor := by
  have hbound : 2 ^ i ≤ 2 ^ 31 := Nat.pow_le_pow_right (by decide) (Nat.le_of_lt_succ h)
  exact hbound.trans (by decide)

/-- As long as the count does not come around, the factor does not shrink. -/
theorem factor_le_factor (hij : i ≤ j) (hj : j < counterBound) : factor i ≤ factor j := by
  rcases Nat.lt_or_ge i 32 with hi | hi
  · rw [factor_of_lt hi]
    rcases Nat.lt_or_ge j 32 with hdoubles | hends
    · rw [factor_of_lt hdoubles]
      exact Nat.pow_le_pow_right (by decide) hij
    · rw [factor_of_le hends hj]
      exact pow_le_maxFactor hi
  · rw [factor_of_le hi (hij.trans_lt hj), factor_of_le (hi.trans hij) hj]

/-- A wait is the base delay times its factor, or the longest duration. -/
theorem wait_eq (base : Duration) (i : Nat) :
    wait base i = ⟨min (base.nanoseconds * factor i) Duration.longest.nanoseconds⟩ := rfl

/-- A greater factor makes no shorter wait. -/
theorem wait_le_wait (h : factor i ≤ factor j) : (wait base i).nanoseconds ≤ (wait base j).nanoseconds :=
  min_le_min_right _ (Nat.mul_le_mul_left _ h)

/-- With a factor of one, the wait is the base delay. -/
theorem wait_of_factor (hbase : base.nanoseconds ≤ Duration.longest.nanoseconds) (h : factor i = 1) :
    wait base i = base := by
  rw [wait_eq, h, Nat.mul_one, Nat.min_eq_left hbase]

/-- There is one wait for every retry. -/
theorem length_waits (policy : RetryPolicy) : policy.waits.length = policy.limit := by
  rw [waits, List.length_map, List.length_range]

/-- The waits are those before the retries, in order. -/
theorem getElem?_waits (policy : RetryPolicy) (h : i < policy.limit) :
    policy.waits[i]? = some (wait policy.delay i) := by
  rw [waits, List.getElem?_map, List.getElem?_range h, Option.map_some]

/-- That no wait in the list is shorter than one before it is a matter of the retries, taken two by two. -/
theorem pairwise_waits_iff (policy : RetryPolicy) :
    policy.waits.Pairwise (·.nanoseconds ≤ ·.nanoseconds) ↔ ∀ i j, i < j → j < policy.limit →
      (wait policy.delay i).nanoseconds ≤ (wait policy.delay j).nanoseconds := by
  rw [waits, List.pairwise_map, List.pairwise_iff_getElem]
  simp only [List.length_range, List.getElem_range]
  exact ⟨fun h i j hij hj => h i j (hij.trans hj) hj hij, fun h i j _ hj hij => h i j hij hj⟩

/-- Where the count comes around, the wait is the base delay again. -/
theorem wait_counterBound (hbase : base.nanoseconds ≤ Duration.longest.nanoseconds) :
    wait base counterBound = base := wait_of_factor hbase (by decide)

/-- The last wait before the count comes around is longer than the base delay, unless all waits are equal. -/
theorem wait_last_le_iff (hbase : base.nanoseconds ≤ Duration.longest.nanoseconds) :
    (wait base (counterBound - 1)).nanoseconds ≤ base.nanoseconds ↔
      base.nanoseconds = 0 ∨ base = .longest := by
  have hfactor : factor (counterBound - 1) = maxFactor := factor_of_le (by decide) (by decide)
  have hlongest : base = .longest ↔ Duration.longest.nanoseconds ≤ base.nanoseconds :=
    ⟨fun h => h ▸ Nat.le_refl _, fun h => congrArg Duration.mk (Nat.le_antisymm hbase h)⟩
  rw [wait_eq, hfactor, min_le_iff, hlongest, maxFactor]
  exact or_congr_left (by omega)

/-- Waits are all equal when the base delay is zero or the longest duration. -/
theorem wait_of_extreme (h : base.nanoseconds = 0 ∨ base = .longest) (i : Nat) : wait base i = base := by
  rw [wait_eq]
  rcases h with hzero | rfl
  · rw [hzero, Nat.zero_mul, Nat.zero_min, ← hzero]
  · have hfactor : 1 ≤ factor i := by
      rw [← factor_mod]
      exact factor_le_factor (i := 0) (Nat.zero_le _) (Nat.mod_lt _ (by decide))
    rw [Nat.min_eq_right (Nat.le_mul_of_pos_right _ hfactor)]

/-- No wait is shorter than one before it just when the count does not come around, or all waits are equal. -/
theorem waits_grow_iff (policy : RetryPolicy) (hdelay : policy.delay.nanoseconds ≤ Duration.longest.nanoseconds) :
    policy.waits.Pairwise (·.nanoseconds ≤ ·.nanoseconds) ↔
      policy.delay.nanoseconds = 0 ∨ policy.delay = .longest ∨ policy.limit ≤ counterBound := by
  rw [pairwise_waits_iff, ← or_assoc]
  constructor
  · intro hgrow
    refine or_iff_not_imp_right.mpr fun hlimit => (wait_last_le_iff hdelay).mp ?_
    rw [Nat.not_le] at hlimit
    have hlast := hgrow (counterBound - 1) counterBound (by decide) hlimit
    rwa [wait_counterBound hdelay] at hlast
  · rintro (hextreme | hlimit) i j hij hj
    · rw [wait_of_extreme hextreme, wait_of_extreme hextreme]
    · exact wait_le_wait (factor_le_factor hij.le (hj.trans_le hlimit))

/-- Waits double while the factor fits in 32 bits, then stay as they are, and do not shrink before the retries have
been counted through.

There is one wait for each retry, and none is longer than the longest duration. The first is the base delay. Each of
the first 32 is twice the one before it, up to the longest duration; those that follow are all the base delay times
the greatest factor, which need not reach the longest duration, until the waits begin anew. So no wait is shorter than
one before it as long as there are no more retries than can be counted, and with more retries there is one that is,
unless all waits are equal. -/
theorem waits_grow_while_counted (policy : RetryPolicy)
    (hdelay : policy.delay.nanoseconds ≤ Duration.longest.nanoseconds) :
    policy.waits.length = policy.limit ∧
    (0 < policy.limit → policy.waits[0]? = some policy.delay) ∧
    (∀ wait ∈ policy.waits, wait.nanoseconds ≤ Duration.longest.nanoseconds) ∧
    (∀ i < policy.limit, i < 32 →
      policy.waits[i]? = some ⟨min (policy.delay.nanoseconds * 2 ^ i) Duration.longest.nanoseconds⟩) ∧
    (∀ i < policy.limit, 32 ≤ i → i < counterBound →
      policy.waits[i]? = some ⟨min (policy.delay.nanoseconds * maxFactor) Duration.longest.nanoseconds⟩ ∧
      (policy.waits[i]? = some .longest ↔ Duration.longest.nanoseconds ≤ policy.delay.nanoseconds * maxFactor)) ∧
    (∀ i < policy.limit, policy.waits[i]? = policy.waits[i % counterBound]?) ∧
    (policy.waits.Pairwise (·.nanoseconds ≤ ·.nanoseconds) ↔
      policy.delay.nanoseconds = 0 ∨ policy.delay = .longest ∨ policy.limit ≤ counterBound) := by
  refine ⟨length_waits policy, fun hsome => ?_, fun delay hmem => ?_, fun i hi hdoubles => ?_,
    fun i hi hends hcounted => ?_, fun i hi => ?_, waits_grow_iff policy hdelay⟩
  · rw [getElem?_waits policy hsome, wait_of_factor hdelay (by decide)]
  · obtain ⟨i, -, rfl⟩ := List.mem_map.mp hmem
    exact Nat.min_le_right _ _
  · rw [getElem?_waits policy hi, wait_eq, factor_of_lt hdoubles]
  · rw [getElem?_waits policy hi, wait_eq, factor_of_le hends hcounted]
    refine ⟨rfl, ?_⟩
    rw [Option.some_inj, ← min_eq_right_iff]
    exact ⟨congrArg Duration.nanoseconds, congrArg Duration.mk⟩
  · rw [getElem?_waits policy hi, getElem?_waits policy ((Nat.mod_le _ _).trans_lt hi), wait_eq, wait_eq, factor_mod]

/-- Three retries after a second wait for one, two and four seconds. -/
theorem waits_grow_while_counted_sample :
    (⟨3, .ofSeconds 1⟩ : RetryPolicy).waits.length = 3 ∧
      (⟨3, .ofSeconds 1⟩ : RetryPolicy).waits[0]? = some (.ofSeconds 1) ∧
      (⟨3, .ofSeconds 1⟩ : RetryPolicy).waits[2]? = some (.ofSeconds 4) ∧
      (⟨3, .ofSeconds 1⟩ : RetryPolicy).waits.Pairwise (·.nanoseconds ≤ ·.nanoseconds) := by
  obtain ⟨hlength, hfirst, -, hdoubles, -, -, hgrow⟩ := waits_grow_while_counted ⟨3, .ofSeconds 1⟩ (by decide)
  exact ⟨hlength, hfirst (by decide), hdoubles 2 (by decide) (by decide), hgrow.mpr (.inr (.inr (by decide)))⟩

/-- After a nanosecond, the wait before the 33rd retry is one short of doubling once more, and far from the longest
duration. With one retry more than can be counted, the last wait is a second again, after one of 2^32 - 1 seconds. -/
theorem waits_shrink_sample :
    (⟨33, ⟨1⟩⟩ : RetryPolicy).waits[32]? = some ⟨4294967295⟩ ∧ (⟨4294967295⟩ : Duration) ≠ .longest ∧
      (⟨4294967297, .ofSeconds 1⟩ : RetryPolicy).waits[4294967295]? = some (.ofSeconds 4294967295) ∧
      (⟨4294967297, .ofSeconds 1⟩ : RetryPolicy).waits[4294967296]? = some (.ofSeconds 1) ∧
      ¬ (⟨4294967297, .ofSeconds 1⟩ : RetryPolicy).waits.Pairwise (·.nanoseconds ≤ ·.nanoseconds) := by
  refine ⟨?_, by decide, ?_, ?_, ?_⟩
  · rw [getElem?_waits _ (by decide)]
    decide +kernel
  · rw [getElem?_waits _ (by decide)]
    decide +kernel
  · rw [getElem?_waits _ (by decide)]
    decide +kernel
  · rw [waits_grow_iff _ (by decide)]
    decide

end Reassembly.RetryPolicy
