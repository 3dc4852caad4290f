/-
KDown/LatencyHistogram.lean

Latency percentiles from bucket counters (metrics/histogram.rs).

A percentile is read from a snapshot of the counters, or from the difference of
two snapshots: the bucket in which the cumulative count reaches the rank, and of
that bucket the upper bound.  Every bucket but the last has one.  The last
collects the overflow as well, and there the value is below the true percentile
(`latency_percentile_covers_iff`).

Counters are numbers that do not wrap, and percentiles are rational.  A snapshot
is taken between recordings.
-/
import KDown.OrderStatistics
import Mathlib.Data.List.FinRange
import Mathlib.Logic.Function.Basic
import Mathlib.Order.Interval.Set.Defs

namespace KDown

/-- `BUCKETS`. -/
def bucketCount : ℕ := 40

/-- The counts of a histogram at one moment. -/
structure BucketSnapshot where
  buckets : List ℕ
  total : ℕ
  deriving DecidableEq, Repr

namespace BucketSnapshot

variable (self : BucketSnapshot)

/-- What a later snapshot has more, bucket by bucket. -/
def delta (later : BucketSnapshot) : BucketSnapshot where
  buckets := (List.range bucketCount).map fun index =>
    later.buckets.getD index 0 - self.buckets.getD index 0
  total := later.total - self.total

/-- The first bucket in which the cumulative count reaches the threshold. -/
def reachIndex (threshold : ℕ) : List ℕ → ℕ → ℕ → Option ℕ
  | [], _, _ => none
  | count :: counts, cumulative, index =>
      if threshold ≤ cumulative + count then some index
      else reachIndex threshold counts (cumulative + count) (index + 1)

/-- Index of the bucket holding the `p` quantile. -/
def quantileIndex (p : ℚ) : Option ℕ :=
  if self.total = 0 then none
  else
    let clamped := max 0 (min p 1)
    let threshold := max 1 ⌈clamped * self.total⌉₊
    some ((reachIndex threshold self.buckets 0 0).getD (bucketCount - 1))

/-- The inclusive upper bound of a bucket. -/
def upperBoundUs (index : ℕ) : ℕ := if index = 0 then 0 else 2 ^ min index 63 - 1

/-- The upper bound of the bucket in which the quantile lies. -/
def latencyPercentileUs (p : ℚ) : Option ℕ := (self.quantileIndex p).map upperBoundUs

/-- What is read for the samples is at least their true percentile. -/
def Covers (p : ℚ) (samples : List ℕ) : Prop :=
  ∀ q ∈ quantile p samples, ∃ v ∈ self.latencyPercentileUs p, q ≤ v

end BucketSnapshot

/-- Bucket 0 holds exact zero, bucket `i` the values from `2 ^ (i - 1)` and below
`2 ^ i`; the last one also collects the overflow. -/
def latencyBucket (us : ℕ) : ℕ := if us = 0 then 0 else min (us.log2 + 1) (bucketCount - 1)

theorem latencyBucket_lt (us : ℕ) : latencyBucket us < bucketCount := by
  unfold latencyBucket bucketCount
  split_ifs <;> omega

/-- The counts of latencies by bucket. -/
structure LatencyHistogram where
  buckets : Fin bucketCount → ℕ
  total : ℕ

namespace LatencyHistogram

/-- Nothing was recorded. -/
def new : LatencyHistogram := ⟨fun _ => 0, 0⟩

/-- A latency is counted in its bucket. -/
def recordUs (self : LatencyHistogram) (us : ℕ) : LatencyHistogram :=
  let index : Fin bucketCount := ⟨latencyBucket us, latencyBucket_lt us⟩
  { buckets := Function.update self.buckets index (self.buckets index + 1)
    total := self.total + 1 }

/-- The counts now. -/
def snapshot (self : LatencyHistogram) : BucketSnapshot := ⟨List.ofFn self.buckets, self.total⟩

/-- The histogram after some samples. -/
def recorded (samples : List ℕ) : LatencyHistogram := samples.foldl recordUs new

/-! ### What is counted -/

/-- **The histogram of a list of samples** counts each of them once. -/
theorem foldl_recordUs (h : LatencyHistogram) (samples : List ℕ) :
    (samples.foldl recordUs h).total = h.total + samples.length ∧
      ∀ i, (samples.foldl recordUs h).buckets i =
        h.buckets i + (samples.map latencyBucket).count i.val := by
  induction samples generalizing h with
  | nil => exact ⟨rfl, fun _ => rfl⟩
  | cons us samples ih =>
    obtain ⟨htotal, hbuckets⟩ := ih (h.recordUs us)
    refine ⟨?_, fun i => ?_⟩
    · rw [List.foldl_cons, htotal, List.length_cons]
      show h.total + 1 + samples.length = _
      omega
    · rw [List.foldl_cons, hbuckets, List.map_cons, List.count_cons]
      by_cases hi : i = ⟨latencyBucket us, latencyBucket_lt us⟩
      · subst hi
        simp only [recordUs, Function.update_self, beq_self_eq_true, if_true]
        omega
      · have hval : latencyBucket us ≠ i.val := fun heq => hi (Fin.ext heq.symm)
        simp only [recordUs, Function.update_of_ne hi, beq_eq_false_iff_ne.mpr hval]
        rfl

/-- The counters of a snapshot count the buckets of the samples. -/
theorem snapshot_recorded (samples : List ℕ) :
    (recorded samples).snapshot =
      ⟨(List.range bucketCount).map (samples.map latencyBucket).count, samples.length⟩ := by
  obtain ⟨htotal, hbuckets⟩ := foldl_recordUs new samples
  have hofFn : List.ofFn (recorded samples).buckets =
      (List.range bucketCount).map (samples.map latencyBucket).count := by
    rw [List.ofFn_eq_map, ← List.map_coe_finRange_eq_range, List.map_map]
    apply List.map_congr_left
    intro i _
    rw [recorded, hbuckets]
    exact Nat.zero_add _
  rw [snapshot, hofFn, recorded, htotal]
  congr 1
  exact Nat.zero_add _

/-- The difference of two snapshots is the snapshot of what came between. -/
theorem delta_recorded (earlier window : List ℕ) :
    (recorded earlier).snapshot.delta (recorded (earlier ++ window)).snapshot =
      (recorded window).snapshot := by
  have hget : ∀ samples : List ℕ, ∀ i ∈ List.range bucketCount,
      (((List.range bucketCount).map (samples.map latencyBucket).count).getD i 0) =
        (samples.map latencyBucket).count i := by
    intro samples i hi
    rw [List.getD_eq_getElem?_getD, List.getElem?_map, List.getElem?_range (List.mem_range.mp hi)]
    rfl
  simp only [snapshot_recorded, BucketSnapshot.delta, List.length_append, Nat.add_sub_cancel_left]
  congr 1
  apply List.map_congr_left
  intro i hi
  rw [hget _ i hi, hget _ i hi, List.map_append, List.count_append, Nat.add_sub_cancel_left]

end LatencyHistogram

/-! ### What is read -/

namespace BucketSnapshot

/-- An element is at most `b`, or below `b + 1`. -/
theorem countP_lt_succ (l : List ℕ) (b : ℕ) :
    l.countP (· < b + 1) = l.countP (· < b) + l.count b := by
  induction l with
  | nil => rfl
  | cons a l ih =>
    rw [List.countP_cons, List.countP_cons, List.count_cons, ih]
    rcases lt_trichotomy a b with h | h | h
    · simp [h, Nat.lt_succ_of_lt h, h.ne]
      omega
    · subst h
      simp
      omega
    · have hno : ¬ a < b + 1 := by omega
      simp [hno, h.ne', not_lt.mpr h.le]

/-- The search finds the bucket of the given rank. -/
theorem reachIndex_ranked {t b : ℕ} {l : List ℕ} (h : Ranked t l b) {m i : ℕ} (hi : i ≤ b)
    (hb : b < i + m) :
    reachIndex t ((List.range' i m).map l.count) (l.countP (· < i)) i = some b := by
  induction m generalizing i with
  | zero => omega
  | succ m ih =>
    rw [List.range'_succ, List.map_cons, reachIndex, ← countP_lt_succ]
    rcases Nat.lt_or_eq_of_le hi with hlt | rfl
    · -- not reached yet
      have hmono : l.countP (· < i + 1) ≤ l.countP (· < b) := by
        apply List.countP_mono_left
        intro x _ hx
        rw [decide_eq_true_eq] at hx ⊢
        omega
      rw [if_neg (not_le.mpr (lt_of_le_of_lt hmono h.below))]
      exact ih hlt (by omega)
    · have hreaches : t ≤ l.countP (· < i + 1) := by
        simpa only [Nat.lt_succ_iff] using h.reaches
      exact if_pos hreaches

end BucketSnapshot

theorem latencyBucket_mono : Monotone latencyBucket := by
  intro a b hab
  unfold latencyBucket
  rcases Nat.eq_zero_or_pos a with rfl | ha
  · exact Nat.zero_le _
  · have hb : b ≠ 0 := (lt_of_lt_of_le ha hab).ne'
    have hlog : a.log2 ≤ b.log2 := by
      rw [Nat.le_log2 hb]
      exact le_trans (Nat.log2_self_le ha.ne') hab
    rw [if_neg ha.ne', if_neg hb]
    exact min_le_min_right _ (Nat.succ_le_succ hlog)

/-- The upper bound of its bucket covers a value, unless it is an overflow. -/
theorem le_upperBoundUs_iff (us : ℕ) :
    us ≤ BucketSnapshot.upperBoundUs (latencyBucket us) ↔ us < 2 ^ (bucketCount - 1) := by
  unfold BucketSnapshot.upperBoundUs latencyBucket bucketCount
  rcases Nat.eq_zero_or_pos us with rfl | hpos
  · exact iff_of_true le_rfl (Nat.two_pow_pos _)
  · rw [if_neg hpos.ne']
    rcases Nat.lt_or_ge us.log2 39 with hlog | hlog
    · have hlt : us < 2 ^ (us.log2 + 1) := Nat.lt_log2_self
      have hbound : us < 2 ^ 39 := lt_of_lt_of_le hlt (Nat.pow_le_pow_right two_pos hlog)
      rw [min_eq_left (by omega), if_neg (Nat.succ_ne_zero _), min_eq_left (by omega)]
      exact iff_of_true (Nat.le_sub_one_of_lt hlt) hbound
    · have hge : 2 ^ 39 ≤ us := by
        exact le_trans (Nat.pow_le_pow_right two_pos hlog) (Nat.log2_self_le hpos.ne')
      rw [min_eq_right (by omega)]
      refine iff_of_false (fun h => ?_) (not_lt.mpr hge)
      exact absurd (le_trans hge h) (by decide)

/-- The value read for a window: the upper bound of the bucket of the true
percentile. -/
theorem latencyPercentileUs_recorded (p : Set.Ioc (0 : ℚ) 1) (window : List ℕ) :
    (LatencyHistogram.recorded window).snapshot.latencyPercentileUs p =
      (quantile p.val window).map fun q => BucketSnapshot.upperBoundUs (latencyBucket q) := by
  obtain ⟨p, hp, hp1⟩ := p
  rw [LatencyHistogram.snapshot_recorded, BucketSnapshot.latencyPercentileUs,
    BucketSnapshot.quantileIndex]
  rcases hq : quantile p window with - | q
  · have hnil := (quantile_eq_none hp1).mp hq
    rw [hnil]
    rfl
  · have hlength : window.length ≠ 0 := by
      intro hzero
      rw [(quantile_eq_none hp1).mpr (List.length_eq_zero_iff.mp hzero)] at hq
      cases hq
    have hranked := (quantile_ranked hp hq).map latencyBucket_mono
    have hclamped : max 0 (min p 1) = p := by rw [min_eq_left hp1, max_eq_right hp.le]
    have hthreshold : max 1 ⌈p * window.length⌉₊ = ⌈p * window.length⌉₊ :=
      max_eq_right (Nat.ceil_pos.mpr (mul_pos hp (Nat.cast_pos.mpr (Nat.pos_of_ne_zero hlength))))
    have hreach := BucketSnapshot.reachIndex_ranked hranked (Nat.zero_le _)
      (by rw [Nat.zero_add]; exact latencyBucket_lt q)
    have hnone : (window.map latencyBucket).countP (· < 0) = 0 := by
      rw [List.countP_eq_zero]
      exact fun _ _ => by simp
    rw [hnone, ← List.range_eq_range'] at hreach
    simp only [if_neg hlength, hclamped, hthreshold, hreach]
    rfl

/-- **Conservative percentiles.**  The value read for the samples since the
start, or for a window between two snapshots, is at least the true percentile
exactly when that lies below the overflow. -/
theorem latency_percentile_covers_iff (p : Set.Ioc (0 : ℚ) 1) (earlier window : List ℕ) :
    ((LatencyHistogram.recorded window).snapshot.Covers p window ↔
        ∀ q ∈ quantile p.val window, q < 2 ^ 39) ∧
      (((LatencyHistogram.recorded earlier).snapshot.delta
          (LatencyHistogram.recorded (earlier ++ window)).snapshot).Covers p window ↔
        ∀ q ∈ quantile p.val window, q < 2 ^ 39) := by
  have hcovers : (LatencyHistogram.recorded window).snapshot.Covers p window ↔
      ∀ q ∈ quantile p.val window, q < 2 ^ 39 := by
    rw [BucketSnapshot.Covers, latencyPercentileUs_recorded]
    refine forall₂_congr fun q hq => ?_
    have hoverflow := le_upperBoundUs_iff q
    rw [Option.mem_def.mp hq]
    refine Iff.trans ?_ hoverflow
    exact ⟨fun ⟨_, rfl, hle⟩ => hle, fun hle => ⟨_, rfl, hle⟩⟩
  refine ⟨hcovers, ?_⟩
  rw [LatencyHistogram.delta_recorded]
  exact hcovers

/-- One acknowledgement in the overflow. -/
theorem overflow_under_reported :
    quantile 1 [2 ^ 39] = some (2 ^ 39) ∧
    (LatencyHistogram.recorded [2 ^ 39]).snapshot.latencyPercentileUs 1 = some (2 ^ 39 - 1) ∧
    ¬ (LatencyHistogram.recorded [2 ^ 39]).snapshot.Covers 1 [2 ^ 39] := by
  have hquantile : quantile 1 [2 ^ 39] = some (2 ^ 39) := by decide +kernel
  have hvalue : (LatencyHistogram.recorded [2 ^ 39]).snapshot.latencyPercentileUs 1 =
      some (2 ^ 39 - 1) := by decide +kernel
  refine ⟨hquantile, hvalue, fun h => ?_⟩
  obtain ⟨v, hv, hle⟩ := h _ hquantile
  rw [hvalue] at hv
  cases hv
  exact absurd hle (by decide)

end KDown
