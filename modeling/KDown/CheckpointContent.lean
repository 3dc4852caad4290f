/-
KDown/CheckpointContent.lean

What may be computed from the content of a stored checkpoint
(resume/checkpoint.rs, resume/flow.rs).

The ranges of a checkpoint come from a file that anybody may have written, and
with an unknown total any 64-bit bounds pass `validate`.  Four computations
use them with unchecked arithmetic: the byte counts, the contiguous prefix,
the reads of the covered digest and the initialization of the scheduler.  Here
each is written in 64-bit arithmetic, where `none` is an overflow.

The structural check orders the ranges; the comparison of the last end with
the length of the temp file then bounds all of them, since no file reaches
`2 ^ 63` bytes.  The scheduler clamps to its own total and needs neither.

* `checkpoint_content_safe`: what `validate` guarantees, and that nothing
  overflows or reads past the file after `validate_temp_file`.
-/
import KDown.CheckpointJson
import KDown.ResumeAdmission
import KDown.SchedulerCoverage

namespace KDown

/-! ### The computations -/

/-- `Checkpoint::completed_bytes`. -/
def Checkpoint.completedBytes64 (cp : Checkpoint) : Option ℕ := sumLens 0 cp.completedRanges

/-- `completed_bytes` of an admitted plan; the difference saturates. -/
def admittedBytes64 (ranges : List ByteRange) : Option ℕ :=
  ranges.foldlM (fun sum r => (u64Add (r.2 - r.1) 1).bind fun n => u64Add sum n) 0

/-- View for a segmented transfer. -/
structure SegmentedResume where
  ranges : List ByteRange
  reusedBytes : ℕ

/-- View for a sequential transfer. -/
structure SequentialResume where
  offset : ℕ
  reusedBytes : ℕ

/-- The ranges of the plan, if their sum has 64 bits. -/
def ResumePlan.segmented (plan : ResumePlan) : Option SegmentedResume :=
  (admittedBytes64 plan.completedRanges).map fun bytes => ⟨plan.completedRanges, bytes⟩

/-- The part of the plan that has no gap before it. -/
def ResumePlan.sequential (plan : ResumePlan) : SequentialResume :=
  ⟨plan.contiguousPrefix, plan.contiguousPrefix⟩

/-- The reads of one range, as offset and length, and the budget they leave.
Every round spends some of the budget, which bounds the rounds. -/
def digestRange : ℕ → ℕ → ℕ → ℕ → Option (List (ℕ × ℕ) × ℕ)
  | 0, _, _, budget => some ([], budget)
  | fuel + 1, offset, stop, budget =>
      if offset ≤ stop ∧ 0 < budget then
        (rangeLen (offset, stop)).bind fun whole =>
          let len := min whole budget
          (u64Add offset len).bind fun next =>
            (digestRange fuel next stop (budget - len)).map fun rest =>
              ((offset, len) :: rest.1, rest.2)
      else some ([], budget)

/-- The reads of `covered_digest`, in order. -/
def digestReads : ℕ → List ByteRange → Option (List (ℕ × ℕ))
  | _, [] => some []
  | budget, (start, stop) :: rest =>
      (digestRange budget start stop budget).bind fun r =>
        -- the budget is used up: later ranges are not read
        if r.2 = 0 then some r.1 else (digestReads r.2 rest).map (r.1 ++ ·)

/-- The completed set of a scheduler: ranges beyond the total are ignored,
partial ones clamped. -/
def clampCompleted64 (total : ℕ) (ranges : List ByteRange) : Option (SortedMap ℕ ℕ) :=
  ranges.foldlM
    (fun m r => if total ≤ r.1 then some m
      else (u64Sub total 1).map fun last => IntervalSet.insert64 m r.1 (min r.2 last)) .empty

/-- What `SegmentScheduler::initialize` computes from the ranges: the completed
set, the pending set and the number of pending bytes. -/
def initialize64 (total : ℕ) (ranges : List ByteRange) :
    Option (SortedMap ℕ ℕ × SortedMap ℕ ℕ × ℕ) :=
  (clampCompleted64 total ranges).bind fun completed =>
    (if total = 0 then some .empty
      else (IntervalSet.complementWithin64 completed total).map fun gaps =>
        gaps.foldl (fun m r => IntervalSet.insert64 m r.1 r.2) .empty).bind fun pending =>
      (IntervalSet.len64 pending).map fun bytes => (completed, pending, bytes)

/-! ### What validation gives -/

/-- Ranges in order, none empty, none touching a byte of another. -/
structure OrderedRanges (ranges : List ByteRange) : Prop where
  ordered : ∀ r ∈ ranges, r.1 ≤ r.2
  apart : ranges.Pairwise fun a b => a.2 < b.1

theorem OrderedRanges.tail {r : ByteRange} {l : List ByteRange} (h : OrderedRanges (r :: l)) :
    OrderedRanges l :=
  ⟨fun x hx => h.ordered x (List.mem_cons_of_mem _ hx), (List.pairwise_cons.mp h.apart).2⟩

theorem orderedRanges_of_validate {cp : Checkpoint} (h : cp.validate = .ok ()) :
    OrderedRanges cp.completedRanges := by
  unfold Checkpoint.validate at h
  split_ifs at h
  cases hv : validateRanges none cp.completedRanges with
  | error e =>
    rw [hv] at h
    cases h
  | ok u =>
    obtain ⟨hapart, hord, -⟩ := pairwise_of_validateRanges hv
    exact ⟨hord, hapart⟩

/-- The last range has the greatest end. -/
theorem OrderedRanges.le_last {l : List ByteRange} (h : OrderedRanges l) {last : ByteRange}
    (hlast : l.getLast? = some last) {r : ByteRange} (hr : r ∈ l) : r.2 ≤ last.2 := by
  obtain ⟨before, rfl⟩ := List.getLast?_eq_some_iff.mp hlast
  rcases List.mem_append.mp hr with hr | hr
  · have hlt := (List.pairwise_append.mp h.apart).2.2 r hr last (List.mem_singleton_self _)
    exact hlt.le.trans (h.ordered last (by simp))
  · rw [List.mem_singleton.mp hr]

/-- A temp file that passed the length check and is no longer than a file can
be holds every range. -/
theorem end_lt_of_validateTempFile {hash : List UInt8 → String} {cp : Checkpoint}
    {tempPath : String} {entry : TempEntry} (hvalid : cp.validate = .ok ())
    (htemp : validateTempFile hash cp tempPath (some entry) = .ok ())
    (hlen : entry.content.length < 9223372036854775808) {r : ByteRange}
    (hr : r ∈ cp.completedRanges) : r.2 < entry.content.length := by
  have hord := orderedRanges_of_validate hvalid
  obtain ⟨⟨e, he, hlong⟩, -⟩ := validateTempFile_eq_ok htemp
  obtain rfl : entry = e := Option.some.inj he
  rcases hlast : cp.completedRanges.getLast? with - | last
  · rw [List.getLast?_eq_none_iff.mp hlast] at hr
    cases hr
  · have hle := hord.le_last hlast hr
    have hneeded := hlong last hlast
    -- a saturated requirement is longer than any file
    have hmax : 9223372036854775808 ≤ u64Max := by decide
    omega

/-! ### Byte counts -/

/-- The covered bytes. -/
def coveredSet (ranges : List ByteRange) : Finset ℕ :=
  ranges.toFinset.biUnion fun r => Finset.Icc r.1 r.2

theorem mem_coveredSet {ranges : List ByteRange} {b : ℕ} :
    b ∈ coveredSet ranges ↔ IntervalSet.InRanges ranges b := by
  simp only [coveredSet, Finset.mem_biUnion, List.mem_toFinset, Finset.mem_Icc,
    IntervalSet.InRanges]

section Counted

variable {ranges : List ByteRange} (hord : OrderedRanges ranges) {limit : ℕ}
  (hend : ∀ r ∈ ranges, r.2 < limit)

include hord hend

theorem card_coveredSet : (coveredSet ranges).card = completedBytes ranges :=
  card_biUnion_ranges ⟨hord.apart, fun r hr => ⟨hord.ordered r hr, hend r hr⟩⟩

/-- There are no more covered bytes than offsets below the limit. -/
theorem completedBytes_le : completedBytes ranges ≤ limit := by
  rw [← card_coveredSet hord hend, ← Finset.card_range limit]
  refine Finset.card_le_card fun b hb => ?_
  obtain ⟨r, hr, hb⟩ := mem_coveredSet.mp hb
  exact Finset.mem_range.mpr (hb.2.trans_lt (hend r hr))

theorem sumLens_covered (hlimit : limit ≤ u64Max) :
    sumLens 0 ranges = some (coveredSet ranges).card := by
  have hle : completedBytes ranges ≤ limit := completedBytes_le hord hend
  rw [card_coveredSet hord hend, sumLens_eq hord.ordered 0 (by
    rw [zero_add]
    exact hle.trans hlimit), zero_add]
  rfl

omit hend in
/-- On ordered ranges the saturating difference is the difference. -/
theorem admittedBytes64_eq : admittedBytes64 ranges = sumLens 0 ranges := by
  have hfold : ∀ (l : List ByteRange) (first : ℕ), (∀ r ∈ l, r.1 ≤ r.2) →
      l.foldlM (fun sum r => (u64Add (r.2 - r.1) 1).bind fun n => u64Add sum n) first =
        sumLens first l := by
    intro l
    induction l with
    | nil => exact fun _ _ => rfl
    | cons r l ih =>
      intro first hl
      have hone : u64Add (r.2 - r.1) 1 = rangeLen r := by
        rw [rangeLen, u64Sub_eq (hl r List.mem_cons_self), Option.bind_some]
      rw [sumLens, List.foldlM_cons, List.foldlM_cons, hone]
      refine congrArg _ (funext fun sum => ?_)
      exact ih sum fun x hx => hl x (List.mem_cons_of_mem _ hx)
  exact hfold ranges 0 hord.ordered

end Counted

/-! ### The reads of the digest -/

/-- A range is read in one piece: to its end, or as far as the budget goes. -/
theorem digestRange_eq {fuel offset stop budget : ℕ} (hfuel : 0 < fuel) (hord : offset ≤ stop)
    (hstop : stop < u64Max) (hbudget : 0 < budget) :
    digestRange fuel offset stop budget =
      some ([(offset, min (stop - offset + 1) budget)],
        budget - min (stop - offset + 1) budget) := by
  obtain ⟨fuel, rfl⟩ : ∃ n, fuel = n + 1 := ⟨fuel - 1, by omega⟩
  -- after one round the range or the budget is at its end
  have hdone : ∀ fuel, digestRange fuel (offset + min (stop - offset + 1) budget) stop
      (budget - min (stop - offset + 1) budget) =
        some ([], budget - min (stop - offset + 1) budget) := by
    intro fuel
    cases fuel with
    | zero => rfl
    | succ fuel =>
      rw [digestRange, if_neg]
      omega
  rw [digestRange, if_pos ⟨hord, hbudget⟩, rangeLen_eq hord (by simp only; omega)]
  simp only [Option.bind_some]
  rw [u64Add_eq (by omega), Option.bind_some, hdone, Option.map_some]

/-- Every read ends where its range does or before. -/
theorem digestReads_inside {ranges : List ByteRange} (hord : OrderedRanges ranges) {limit : ℕ}
    (hend : ∀ r ∈ ranges, r.2 < limit) (hlimit : limit ≤ u64Max) {budget : ℕ}
    (hbudget : 0 < budget) :
    ∃ reads, digestReads budget ranges = some reads ∧ ∀ r ∈ reads, r.1 + r.2 ≤ limit := by
  induction ranges generalizing budget with
  | nil => exact ⟨[], rfl, fun r hr => by cases hr⟩
  | cons r ranges ih =>
    obtain ⟨start, stop⟩ := r
    have hle := hord.ordered _ List.mem_cons_self
    have hlt := hend _ List.mem_cons_self
    simp only at hle hlt
    have hread := digestRange_eq hbudget hle (by omega) hbudget
    have hfirst : start + min (stop - start + 1) budget ≤ limit := by omega
    rw [digestReads, hread, Option.bind_some]
    split_ifs with hzero
    · refine ⟨_, rfl, fun r hr => ?_⟩
      rw [List.mem_singleton.mp hr]
      exact hfirst
    · obtain ⟨reads, hreads, hin⟩ := ih hord.tail
        (fun x hx => hend x (List.mem_cons_of_mem _ hx)) (Nat.pos_of_ne_zero hzero)
      refine ⟨_, by rw [hreads, Option.map_some], fun r hr => ?_⟩
      rcases List.mem_append.mp hr with hr | hr
      · rw [List.mem_singleton.mp hr]
        exact hfirst
      · exact hin r hr

/-! ### The scheduler's sets -/

open IntervalSet in
/-- **Clamping overflows nowhere**, and gives a well-formed set. -/
theorem clampCompleted64_eq {total : ℕ} (htotal : total ≤ u64Max) (ranges : List ByteRange) :
    clampCompleted64 total ranges =
        some (SegmentScheduler.clampCompleted total ranges).map ∧
      WellFormed (SegmentScheduler.clampCompleted total ranges).map := by
  have hfold : ∀ (l : List ByteRange) (s : IntervalSet), WellFormed s.map →
      l.foldlM (fun m r => if total ≤ r.1 then some m
          else (u64Sub total 1).map fun last => insert64 m r.1 (min r.2 last)) s.map =
        some (l.foldl (fun set r => if total ≤ r.1 then set
          else set.insert r.1 (min r.2 (total - 1))) s).map ∧
      WellFormed (l.foldl (fun set r => if total ≤ r.1 then set
          else set.insert r.1 (min r.2 (total - 1))) s).map := by
    intro l
    induction l with
    | nil => exact fun s hs => ⟨rfl, hs⟩
    | cons r l ih =>
      intro s hs
      rw [List.foldlM_cons, List.foldl_cons]
      split_ifs with hr
      · exact ih s hs
      · have hstop : min r.2 (total - 1) ≤ u64Max := by omega
        have hinsert : insert64 s.map r.1 (min r.2 (total - 1)) =
            (s.insert r.1 (min r.2 (total - 1))).map := insert64_eq hs.words _ _
        have hwf : WellFormed (insert64 s.map r.1 (min r.2 (total - 1))) :=
          (insert64_spec hs hstop).1
        have hone : (u64Sub total 1).map (fun last => insert64 s.map r.1 (min r.2 last)) =
            some (s.insert r.1 (min r.2 (total - 1))).map := by
          rw [u64Sub_eq (by omega), Option.map_some, hinsert]
        rw [hone, Option.bind_eq_bind, Option.bind_some]
        exact ih _ (hinsert ▸ hwf)
  exact hfold ranges .new ⟨canonical_empty, fun k v h => by cases h⟩

open IntervalSet in
/-- The fold of the 64-bit insertion is the scheduler's. -/
theorem foldl_insert64_eq (l : List ByteRange) (hl : ∀ r ∈ l, r.2 ≤ u64Max) (s : IntervalSet)
    (hs : WellFormed s.map) :
    l.foldl (fun m r => insert64 m r.1 r.2) s.map = (s.insertAll l).map := by
  induction l generalizing s with
  | nil => rfl
  | cons r l ih =>
    have hinsert : insert64 s.map r.1 r.2 = (s.insert r.1 r.2).map := insert64_eq hs.words _ _
    have hwf : WellFormed (insert64 s.map r.1 r.2) :=
      (insert64_spec hs (hl r List.mem_cons_self)).1
    rw [List.foldl_cons, hinsert]
    exact ih (fun x hx => hl x (List.mem_cons_of_mem _ hx)) _ (hinsert ▸ hwf)

/-- The initialization computes the sets of the scheduler for any total and any
ranges. -/
theorem initialize64_eq {total : ℕ} (htotal : total ≤ u64Max) (ranges : List ByteRange)
    (policy : SchedulerPolicy) :
    initialize64 total ranges =
      some ((SegmentScheduler.initialized total ranges policy).completed.map,
        (SegmentScheduler.initialized total ranges policy).pending.map,
        (SegmentScheduler.initialized total ranges policy).pending.len) := by
  obtain ⟨hclamp, hwf⟩ := clampCompleted64_eq htotal ranges
  have hin : ∀ b, IntervalSet.Covered (SegmentScheduler.clampCompleted total ranges).map b →
      b < total := fun b hb => (SegmentScheduler.mem_clampCompleted.mp hb).1
  have hempty : IntervalSet.WellFormed IntervalSet.new.map :=
    ⟨IntervalSet.canonical_empty, fun k v h => by cases h⟩
  rw [initialize64, hclamp, Option.bind_some]
  by_cases hzero : total = 0
  · rw [if_pos hzero, Option.bind_some]
    simp only [SegmentScheduler.initialized, if_pos hzero]
    rfl
  · rw [if_neg hzero]
    simp only [SegmentScheduler.initialized, if_neg hzero]
    obtain ⟨gaps, hgaps, hnormal, hmem⟩ := IntervalSet.complementWithin64_spec hwf htotal hin
    obtain rfl : (SegmentScheduler.clampCompleted total ranges).complementWithin total = gaps :=
      Option.some.inj ((IntervalSet.complementFrom64_eq htotal
        (IntervalSet.entries_bound hwf hin) 0).symm.trans hgaps)
    have hbound : ∀ r ∈ (SegmentScheduler.clampCompleted total ranges).complementWithin total,
        r.2 < total := fun r hr =>
      ((hmem r.2).mp ⟨r, hr, hnormal.ordered r hr, le_rfl⟩).1
    have hstops : ∀ r ∈ (SegmentScheduler.clampCompleted total ranges).complementWithin total,
        r.2 ≤ u64Max := fun r hr => (hbound r hr).le.trans htotal
    have hpending : ((SegmentScheduler.clampCompleted total ranges).complementWithin total).foldl
        (fun m r => IntervalSet.insert64 m r.1 r.2) SortedMap.empty =
          (IntervalSet.fromRanges
            ((SegmentScheduler.clampCompleted total ranges).complementWithin total)).map :=
      foldl_insert64_eq _ hstops .new hempty
    have hpend : IntervalSet.WellFormed (IntervalSet.fromRanges
        ((SegmentScheduler.clampCompleted total ranges).complementWithin total)).map :=
      hpending ▸ (IntervalSet.foldl_insert64_spec _ hempty hstops).1
    have hpendin : ∀ b, IntervalSet.Covered (IntervalSet.fromRanges
        ((SegmentScheduler.clampCompleted total ranges).complementWithin total)).map b →
        b < total := by
      intro b hb
      obtain ⟨r, hr, hrb⟩ := IntervalSet.mem_fromRanges.mp hb
      exact hrb.2.trans_lt (hbound r hr)
    have hlen := IntervalSet.len64_eq hpend htotal hpendin
    rw [hgaps, Option.map_some, Option.bind_some, hpending]
    exact congrArg (Option.map _) hlen

/-! ### The content is safe to use -/

/-- Only a range that starts at zero makes a prefix. -/
theorem mem_of_lt_contiguousPrefix {cp : Checkpoint} {b : ℕ}
    (hb : b < (ResumePlan.resuming cp).contiguousPrefix) :
    IntervalSet.InRanges cp.completedRanges b := by
  simp only [ResumePlan.resuming] at hb
  rcases hhead : cp.completedRanges.head? with - | ⟨s, e⟩ <;> rw [hhead] at hb
  · exact absurd hb (Nat.not_lt_zero b)
  · simp only at hb
    split_ifs at hb with hs
    · refine ⟨(s, e), List.mem_of_mem_head? hhead, ?_⟩
      simp only
      omega
    · exact absurd hb (Nat.not_lt_zero b)

/-- **Stored content is safe to use.**  A checkpoint that validates has ordered
disjoint ranges inside its total.  Once it also fits its temp file, the byte
counts are exact, the digest reads inside the file, the contiguous prefix is
exact and lies in the completed ranges, and a scheduler for any total is set up
without an overflow. -/
theorem checkpoint_content_safe {cp : Checkpoint} (hvalid : cp.validate = .ok ()) :
    (OrderedRanges cp.completedRanges ∧
      ∀ total, cp.totalSize = some total → ∀ r ∈ cp.completedRanges, r.2 < total) ∧
    ∀ (hash : List UInt8 → String) (tempPath : String) (entry : TempEntry),
      validateTempFile hash cp tempPath (some entry) = .ok () →
      entry.content.length < 9223372036854775808 →
        cp.completedBytes64 = some (coveredSet cp.completedRanges).card ∧
        (∃ view, (ResumePlan.resuming cp).segmented = some view ∧
          view.ranges = cp.completedRanges ∧
          view.reusedBytes = (coveredSet cp.completedRanges).card) ∧
        (∃ reads, digestReads coveredDigestWindow cp.completedRanges = some reads ∧
          ∀ r ∈ reads, r.1 + r.2 ≤ entry.content.length) ∧
        (∀ e, cp.completedRanges.head? = some (0, e) →
          (ResumePlan.resuming cp).sequential.offset = e + 1) ∧
        (∀ b, b < (ResumePlan.resuming cp).sequential.offset →
          IntervalSet.InRanges cp.completedRanges b) ∧
        ∀ (total : ℕ) (policy : SchedulerPolicy), total ≤ u64Max →
          initialize64 total cp.completedRanges =
            some ((SegmentScheduler.initialized total cp.completedRanges policy).completed.map,
              (SegmentScheduler.initialized total cp.completedRanges policy).pending.map,
              (SegmentScheduler.initialized total cp.completedRanges policy).pending.len) := by
  have hord := orderedRanges_of_validate hvalid
  refine ⟨⟨hord, fun total htotal r hr => ((admittedOk_of_validate hvalid htotal).2 r hr).2⟩,
    fun hash tempPath entry htemp hlen => ?_⟩
  have hend : ∀ r ∈ cp.completedRanges, r.2 < entry.content.length := fun r hr =>
    end_lt_of_validateTempFile hvalid htemp hlen hr
  have hlimit : entry.content.length ≤ u64Max := hlen.le.trans (by decide)
  have hsum := sumLens_covered hord hend hlimit
  refine ⟨hsum, ⟨⟨cp.completedRanges, (coveredSet cp.completedRanges).card⟩, ?_, rfl, rfl⟩, ?_,
    fun e he => ?_, fun b hb => mem_of_lt_contiguousPrefix hb,
    fun total policy htotal => initialize64_eq htotal _ policy⟩
  · rw [ResumePlan.segmented]
    show (admittedBytes64 cp.completedRanges).map _ = _
    rw [admittedBytes64_eq hord, hsum, Option.map_some]
    rfl
  · exact digestReads_inside hord hend hlimit (by decide)
  · have hlast := hend (0, e) (List.mem_of_mem_head? he)
    show (ResumePlan.resuming cp).contiguousPrefix = e + 1
    simp only [ResumePlan.resuming, he, if_true]
    simp only at hlast
    omega

/-- Two ranges of unknown total in a file of thirty bytes. -/
def twoRanges : Checkpoint where
  formatVersion := 2
  jobId := "job"
  tempPathIdentity := "out.part"
  ownedTempIdentity := none
  coveredDigest := none
  totalSize := none
  validators := ⟨none, false, none, none⟩
  completedRanges := [(0, 9), (20, 29)]
  expectedHashes := []
  createdAt := "0"
  updatedAt := "0"

/-- The sizes of an admitted checkpoint are computed without overflow. -/
theorem checkpoint_content_safe_two :
    twoRanges.validate = .ok () ∧
      validateTempFile (fun _ => "") twoRanges "out.part"
        (some ⟨.regular, 1, 7, 1, true, List.replicate 30 0⟩) = .ok () ∧
      twoRanges.completedBytes64 = some (coveredSet twoRanges.completedRanges).card := by
  have hvalid : twoRanges.validate = .ok () := rfl
  have htemp : validateTempFile (fun _ => "") twoRanges "out.part"
      (some ⟨.regular, 1, 7, 1, true, List.replicate 30 0⟩) = .ok () := rfl
  exact ⟨hvalid, htemp, ((checkpoint_content_safe hvalid).2 _ _ _ htemp (by decide)).1⟩

end KDown
