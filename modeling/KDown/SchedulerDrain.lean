/-
KDown/SchedulerDrain.lean

A scheduler that is only drained finishes.

Draining means: complete the active leases, in any order, at any time and
after any reports; when none is active, acquire the next one; stop when
nothing is left to acquire.  Every step lowers `2 * pending bytes + active
leases`, because a carve takes at least one byte whatever the sizing policy,
the duration samples and the ready-work cap say; and by the partition
invariant the state in which no step is left has completed every byte.
-/
import KDown.SchedulerPartition

namespace KDown

open Relation

namespace SegmentScheduler

/-! ### Carves -/

theorem applyReadyWorkCap_le (p : SchedulerPolicy) {want gapLen : ℕ} (h : want ≤ gapLen) :
    p.applyReadyWorkCap want gapLen ≤ gapLen := by
  unfold SchedulerPolicy.applyReadyWorkCap
  split_ifs
  · exact h
  · simp only
    split_ifs
    · exact (min_le_left _ _).trans h
    · exact h

/-- The lease length never exceeds the gap, whatever drives the sizing. -/
theorem targetLenForGap_le (s : SegmentScheduler) {gapLen : ℕ} (h : 1 ≤ gapLen) :
    s.targetLenForGap gapLen ≤ gapLen := by
  unfold targetLenForGap
  refine applyReadyWorkCap_le _ ?_
  rcases s.durationTarget with - | d
  · refine applyReadyWorkCap_le _ ?_
    exact max_le (min_le_right _ _) (min_le_right _ _)
  · simp only
    unfold DurationTarget.nextSize
    split_ifs
    · exact max_le (min_le_right _ _) h
    · exact max_le (min_le_right _ _) (max_le (min_le_right _ _) h)

/-- A carve from the first pending range begins where the range begins and
takes between one byte and all of it. -/
theorem acquire_of_head {s : SegmentScheduler} {gap : ByteRange}
    (h : s.pending.ranges.head? = some gap) (now : ℕ) :
    ∃ lease s', s.acquire now = some (lease, s') ∧ lease.start = gap.1 ∧
      lease.stop - lease.start + 1 = s.targetLenForGap (gap.2 - gap.1 + 1) ∧
      lease.start ≤ lease.stop ∧
      lease.stop - lease.start + 1 ≤ gap.2 - gap.1 + 1 ∧ lease.stop ≤ gap.2 := by
  have hmem : gap ∈ s.pending.ranges := List.mem_of_mem_head? (by simp [h])
  have hord := IntervalSet.ordered_of_mem_ranges hmem
  have hpos : 1 ≤ s.targetLenForGap (gap.2 - gap.1 + 1) := s.targetLenForGap_pos (by omega)
  have hle : s.targetLenForGap (gap.2 - gap.1 + 1) ≤ gap.2 - gap.1 + 1 :=
    s.targetLenForGap_le (by omega)
  refine ⟨_, _, by rw [acquire, h], rfl, ?_, ?_, ?_, ?_⟩ <;> simp only <;> omega

/-- `acquire` fails only where nothing is pending. -/
theorem acquire_eq_none_iff {s : SegmentScheduler} {now : ℕ} :
    s.acquire now = none ↔ s.pending.ranges = [] := by
  constructor
  · intro h
    rcases e : s.pending.ranges.head? with - | gap
    · exact List.head?_eq_none_iff.mp e
    · obtain ⟨lease, s', hacq, -⟩ := acquire_of_head e now
      rw [hacq] at h
      cases h
  · intro h
    simp [acquire, h]

/-- A carve leaves fewer bytes pending. -/
theorem acquire_pending_len {s s' : SegmentScheduler} {now : ℕ} {lease : SegmentLease}
    (h : s.acquire now = some (lease, s')) : s'.pending.len < s.pending.len := by
  obtain ⟨start, stop, gapEnd, hgap, hord, hend, -, hled⟩ := acquire_ledger h
  have hpend : s'.pending = s.pending.subtract start stop := congrArg Ledger.pending hled
  rw [← IntervalSet.card_toFinset, ← IntervalSet.card_toFinset, hpend]
  refine Finset.card_lt_card (Finset.ssubset_iff_subset_ne.mpr ⟨?_, ?_⟩)
  · intro b hb
    rw [IntervalSet.mem_toFinset, IntervalSet.mem_subtract] at hb
    exact IntervalSet.mem_toFinset.mpr hb.1
  · -- the first byte of the gap is gone
    intro heq
    have hmem : start ∈ s.pending.toFinset :=
      IntervalSet.mem_toFinset.mpr
        (IntervalSet.mem_iff_ranges.mpr ⟨_, hgap, le_rfl, hord.trans hend⟩)
    rw [← heq, IntervalSet.mem_toFinset, IntervalSet.mem_subtract] at hmem
    exact hmem.2 ⟨le_rfl, hord⟩

/-! ### Draining -/

/-- Report some offsets for the lease `id`, then complete it. -/
def finish (s : SegmentScheduler) (id generation : ℕ) (reports : List ℕ) (now : ℕ) :
    SegmentScheduler :=
  ((reports.foldl (fun s offset => (s.reportProgress id generation offset).2) s).complete
    id generation now).2

/-- One step of a drain: finish an active lease, or acquire one when none is
active. -/
inductive DrainStep (s : SegmentScheduler) : SegmentScheduler → Prop
  | finish {id lease} (reports : List ℕ) (now : ℕ) : s.active.get? id = some lease →
      DrainStep s (s.finish id lease.generation reports now)
  | acquire {lease s'} (now : ℕ) : s.hasActive = false → s.acquire now = some (lease, s') →
      DrainStep s s'

/-- `n` steps of a drain. -/
inductive DrainRun (s : SegmentScheduler) : ℕ → SegmentScheduler → Prop
  | start : DrainRun s 0 s
  | next {n t t'} : DrainRun s n t → DrainStep t t' → DrainRun s (n + 1) t'

/-- Reports leave pending and the leases in place; only a frontier moves. -/
theorem foldl_reportProgress {s : SegmentScheduler} {id : ℕ} {lease : SegmentLease}
    (hget : s.active.get? id = some lease) (generation : ℕ) (reports : List ℕ) :
    let s' := reports.foldl (fun s offset => (s.reportProgress id generation offset).2) s
    s'.pending = s.pending ∧ s'.active.length = s.active.length ∧
      ∃ l, s'.active.get? id = some l ∧ l.generation = lease.generation := by
  induction reports generalizing s lease with
  | nil => exact ⟨rfl, rfl, lease, hget, rfl⟩
  | cons offset reports ih =>
    simp only [List.foldl_cons]
    rcases s.reportProgress_ledger id generation offset with h | ⟨l, hl, -, -, h⟩
    · rw [h]
      exact ih hget
    · obtain rfl : lease = l := Option.some.inj (hget.symm.trans hl)
      have hactive := congrArg Ledger.active h
      simp only [ledger_active, Ledger.advance] at hactive
      have hmoved : (s.reportProgress id generation offset).2.active.get? id =
          some { lease with nextOffset := min offset (lease.stop + 1) } := by
        rw [hactive, SortedMap.get?_insert_self]
      obtain ⟨hpend, hlen, l', hl', hgen⟩ := ih hmoved
      refine ⟨hpend.trans (congrArg Ledger.pending h), ?_, l', hl', hgen⟩
      rw [hlen, hactive]
      exact SortedMap.length_insert_of_get? hget _

/-- **A lease that is finished** leaves the active ones and nothing behind. -/
theorem finish_spec {s : SegmentScheduler} {id : ℕ} {lease : SegmentLease}
    (hget : s.active.get? id = some lease) (reports : List ℕ) (now : ℕ) :
    (s.finish id lease.generation reports now).pending = s.pending ∧
      (s.finish id lease.generation reports now).active.length + 1 = s.active.length := by
  obtain ⟨hpend, hlen, l, hl, hgen⟩ := foldl_reportProgress hget lease.generation reports
  -- the generation is current, so the completion is accepted
  have hacc := complete_of_get? hl hgen now
  refine ⟨(congrArg Ledger.pending hacc).trans hpend, ?_⟩
  have hactive := congrArg Ledger.active hacc
  simp only [ledger_active, Ledger.credit] at hactive
  rw [finish, hactive, SortedMap.length_erase hl, hlen]

theorem foldl_reportProgress_steps (s : SegmentScheduler) (id generation : ℕ)
    (reports : List ℕ) :
    ReflTransGen Ledger.Step s.ledger
      (reports.foldl (fun s offset => (s.reportProgress id generation offset).2) s).ledger := by
  induction reports generalizing s with
  | nil => exact .refl
  | cons offset reports ih => exact (s.reportProgress_steps id generation offset).trans (ih _)

/-- A step of a drain is a sequence of ledger steps. -/
theorem DrainStep.steps {s s' : SegmentScheduler} (h : DrainStep s s') :
    ReflTransGen Ledger.Step s.ledger s'.ledger := by
  cases h with
  | @finish id lease reports now hget =>
    refine (foldl_reportProgress_steps s id lease.generation reports).trans ?_
    exact apply_steps _ (.complete id lease.generation now)
  | acquire now hidle hacq =>
    have h := s.apply_steps (.acquire now)
    simp only [apply, hacq] at h
    exact h

/-! ### Termination -/

/-- What is left to do. -/
def drainMeasure (s : SegmentScheduler) : ℕ := 2 * s.pending.len + s.active.length

/-- No lease is active if the map is empty. -/
theorem hasActive_eq_false_iff {s : SegmentScheduler} :
    s.hasActive = false ↔ s.active.length = 0 := by
  simp [hasActive, SortedMap.length]

/-- **Every step of a drain leaves less to do.** -/
theorem DrainStep.measure_lt {s s' : SegmentScheduler} (h : DrainStep s s') :
    s'.drainMeasure < s.drainMeasure := by
  cases h with
  | finish reports now hget =>
    obtain ⟨hpend, hlen⟩ := finish_spec hget reports now
    simp only [drainMeasure, hpend]
    omega
  | acquire now hidle hacq =>
    have hpend := acquire_pending_len hacq
    have hzero := hasActive_eq_false_iff.mp hidle
    -- the carved lease is the only one, and at least one byte left pending
    obtain ⟨start, stop, -, -, -, -, -, hled⟩ := acquire_ledger hacq
    have hactive := congrArg Ledger.active hled
    simp only [ledger_active, Ledger.carve] at hactive
    have hlen := SortedMap.length_insert_of_get?_eq_none
      (SortedMap.length_eq_zero_iff.mp hzero s.ledger.nextLease)
      (s.ledger.freshLease start stop)
    simp only [drainMeasure, hactive]
    omega

theorem DrainRun.measure_le {s s' : SegmentScheduler} {n : ℕ} (h : DrainRun s n s') :
    s'.drainMeasure + n ≤ s.drainMeasure := by
  induction h with
  | start => exact le_rfl
  | next _ hstep ih =>
    have := hstep.measure_lt
    omega

/-- Every drain can be carried on to its end. -/
theorem DrainRun.exists_end {s t : SegmentScheduler} {n : ℕ} (h : DrainRun s n t) :
    ∃ m u, DrainRun s m u ∧ ∀ u', ¬ DrainStep u u' := by
  -- induction on what is left to do
  induction hk : t.drainMeasure using Nat.strong_induction_on generalizing n t with
  | _ k ih =>
    by_cases hend : ∃ t', DrainStep t t'
    · obtain ⟨t', hstep⟩ := hend
      exact ih _ (hk ▸ hstep.measure_lt) (h.next hstep) rfl
    · exact ⟨n, t, h, fun u' hu' => hend ⟨u', hu'⟩⟩

theorem DrainRun.steps {s s' : SegmentScheduler} {n : ℕ} (h : DrainRun s n s') :
    ReflTransGen Ledger.Step s.ledger s'.ledger := by
  induction h with
  | start => exact .refl
  | next _ hstep ih => exact ih.trans hstep.steps

/-! ### The drained state -/

/-- A scheduler that cannot be drained further is finished. -/
theorem finished_of_no_drainStep {s : SegmentScheduler} (h : ∀ s', ¬ DrainStep s s') :
    s.hasActive = false ∧ s.pending.ranges = [] := by
  have hidle : s.active.length = 0 := SortedMap.length_eq_zero_iff.mpr fun id => by
    rcases e : s.active.get? id with - | lease
    · rfl
    · exact absurd (DrainStep.finish [] 0 e) (h _)
  have hactive := hasActive_eq_false_iff.mpr hidle
  refine ⟨hactive, ?_⟩
  rcases e : s.acquire 0 with - | ⟨lease, s'⟩
  · exact acquire_eq_none_iff.mp e
  · exact absurd (DrainStep.acquire 0 hactive e) (h _)

/-- One range covers the domain when every byte of it is covered and no
other. -/
theorem ranges_eq_full {set : IntervalSet} {total : ℕ} (h : ∀ b, b ∈ set ↔ b < total) :
    set.ranges = if total = 0 then [] else [(0, total - 1)] := by
  refine set.normalRanges_ranges.eq_of_inRanges ?_ fun b => ?_
  · split_ifs
    · exact ⟨List.Pairwise.nil, fun r hr => by cases hr⟩
    · refine ⟨List.pairwise_singleton _ _, fun r hr => ?_⟩
      rw [List.mem_singleton.mp hr]
      exact Nat.zero_le _
  · rw [IntervalSet.InRanges, ← IntervalSet.mem_iff_ranges, h]
    split_ifs with h₀
    · simp [IntervalSet.InRanges, h₀]
    · simp only [IntervalSet.InRanges, List.mem_singleton, exists_eq_left]
      omega

/-- A finished scheduler has completed its whole domain. -/
theorem completed_of_finished {s : SegmentScheduler} (hs : s.ledger.WellFormed)
    (hactive : s.hasActive = false) (hpend : s.pending.ranges = []) :
    s.completed.ranges = if s.totalSize = 0 then [] else [(0, s.totalSize - 1)] := by
  have hnone := SortedMap.length_eq_zero_iff.mp (hasActive_eq_false_iff.mp hactive)
  refine ranges_eq_full fun b => ⟨hs.owned.within .completed b, fun hb => ?_⟩
  -- the byte has a holder, and only the completed set is left to hold it
  obtain ⟨_ | _ | id, ho⟩ := hs.owned.covered b hb
  · exact ho
  · obtain ⟨r, hr, -⟩ := IntervalSet.mem_iff_ranges.mp ho
    rw [ledger_pending, hpend] at hr
    cases hr
  · obtain ⟨l, hl, -⟩ := ho
    rw [ledger_active, hnone id] at hl
    cases hl

/-- **Drain.**  From every state that calls can lead to, every drain ends
after at most `2 * pending bytes + active leases` steps, and where it ends
the domain is one completed range, nothing is pending and no lease is active.
On the way every acquire on a non-empty pending set returns a lease of at
least one byte and at most its gap. -/
theorem drain_completes (total : ℕ) (ranges : List ByteRange) (policy : SchedulerPolicy)
    (ops : List SchedulerOp) :
    let s := ((initialized total ranges policy).run ops).1
    (∀ n t, DrainRun s n t → n ≤ 2 * s.pending.len + s.active.length) ∧
    (∃ n t, DrainRun s n t ∧ ∀ t', ¬ DrainStep t t') ∧
    (∀ n t, DrainRun s n t → (∀ t', ¬ DrainStep t t') →
      t.completed.ranges = (if total = 0 then [] else [(0, total - 1)]) ∧
        t.pending.ranges = [] ∧ t.hasActive = false) ∧
    (∀ n t, DrainRun s n t → ∀ now gap, t.pending.ranges.head? = some gap →
      ∃ lease t', t.acquire now = some (lease, t') ∧ lease.start = gap.1 ∧
        lease.start ≤ lease.stop ∧
        lease.stop - lease.start + 1 ≤ gap.2 - gap.1 + 1 ∧ lease.stop ≤ gap.2) := by
  intro s
  have hsteps : ReflTransGen Ledger.Step (initialized total ranges policy).ledger s.ledger :=
    run_steps _ ops
  have hwf := (initialized_wellFormed total ranges policy).steps hsteps
  refine ⟨fun n t h => ?_, DrainRun.start.exists_end, fun n t h hend => ?_,
    fun n t h now gap hgap => ?_⟩
  · have := h.measure_le
    simp only [drainMeasure] at this
    omega
  · obtain ⟨hactive, hpend⟩ := finished_of_no_drainStep hend
    have htotal : t.totalSize = total := steps_totalSize (hsteps.trans h.steps)
    have hfull := completed_of_finished (hwf.steps h.steps) hactive hpend
    rw [htotal] at hfull
    exact ⟨hfull, hpend, hactive⟩
  · obtain ⟨lease, t', hacq, hstart, -, hord, hle, hend⟩ := acquire_of_head hgap now
    exact ⟨lease, t', hacq, hstart, hord, hle, hend⟩

end SegmentScheduler

/-! ### Finished schedulers -/

/-- No byte is pending and no lease is active. -/
def Ledger.Finished (g : Ledger) : Prop :=
  g.pending.ranges = [] ∧ ∀ id, g.active.get? id = none

/-- A finished ledger stays finished. -/
theorem Ledger.Finished.step {g g' : Ledger} (h : g.Finished)
    (hstep : Ledger.Step g g') : g'.Finished := by
  cases hstep with
  | carve hgap _ _ =>
    rw [h.1] at hgap
    cases hgap
  | advance hget _ _ | credit hget | giveBack hget | split hget _ _ =>
    rw [h.2] at hget
    cases hget
  | bump => exact h

theorem Ledger.Finished.steps {g g' : Ledger} (h : g.Finished)
    (hsteps : ReflTransGen Ledger.Step g g') : g'.Finished := by
  induction hsteps with
  | refl => exact h
  | tail _ hstep ih => exact ih.step hstep

theorem Ledger.not_finished_of_get? {g : Ledger} {id : ℕ} {lease : SegmentLease}
    (h : g.active.get? id = some lease) : ¬ g.Finished := by
  intro hfin
  rw [hfin.2] at h
  cases h

/-- The calls that remove a lease. -/
def SchedulerOp.dissolves : SchedulerOp → Bool
  | .complete _ _ _ | .fail _ _ _ | .release _ _ | .bumpGeneration => true
  | _ => false

namespace SegmentScheduler

/-- The scheduler is finished if its ledger is. -/
theorem isFinished_iff {s : SegmentScheduler} : s.isFinished = true ↔ s.ledger.Finished := by
  have hactive : s.active.entries = [] ↔ ∀ id, s.active.get? id = none := by
    rw [← SortedMap.length_eq_zero_iff, SortedMap.length, List.length_eq_zero_iff]
  simp [isFinished, Ledger.Finished, IntervalSet.isEmpty, IntervalSet.ranges, hactive]

theorem reportProgress_finished {s : SegmentScheduler} {id generation offset : ℕ}
    (h : (s.reportProgress id generation offset).2.ledger.Finished) : s.ledger.Finished := by
  rcases s.reportProgress_ledger id generation offset with heq | ⟨lease, -, -, -, hled⟩
  · rwa [heq] at h
  · rw [hled] at h
    exact absurd h (Ledger.not_finished_of_get? (SortedMap.get?_insert_self _ _ _))

theorem absorbCell_finished {s : SegmentScheduler} {cell : Option LeaseRecord}
    (h : (s.absorbCell cell).2.ledger.Finished) : s.ledger.Finished := by
  unfold absorbCell at h
  rcases cell with - | record
  · exact h
  simp only at h
  rcases hnext : s.leaseNextOffset record.leaseId with - | before <;> rw [hnext] at h
  · exact h
  · simp only at h
    split_ifs at h
    · exact reportProgress_finished h
    · exact reportProgress_finished h

theorem absorbWorkerProgress_finished {s : SegmentScheduler} {cells : List (Option LeaseRecord)}
    (h : (s.absorbWorkerProgress cells).2.ledger.Finished) : s.ledger.Finished := by
  induction cells generalizing s with
  | nil => exact h
  | cons cell cells ih => exact absorbCell_finished (ih h)

/-- **Only a call that removes a lease can finish a scheduler.** -/
theorem apply_finished {s : SegmentScheduler} {op : SchedulerOp} (hop : op.dissolves = false)
    (h : (s.apply op).1.ledger.Finished) : s.ledger.Finished := by
  cases op with
  | acquire now =>
    simp only [apply] at h
    rcases hacq : s.acquire now with - | ⟨lease, s'⟩ <;> rw [hacq] at h
    · exact h
    · obtain ⟨start, stop, -, -, -, -, -, hled⟩ := acquire_ledger hacq
      rw [hled] at h
      exact absurd h (Ledger.not_finished_of_get? (SortedMap.get?_insert_self _ _ _))
  | reportProgress id generation offset => exact reportProgress_finished h
  | absorbWorkerProgress cells => exact absorbWorkerProgress_finished h
  | complete id generation now => cases hop
  | fail id generation now => cases hop
  | release id generation => cases hop
  | splitTail id generation minTail received now =>
    simp only [apply] at h
    rcases hsplit : s.splitTail id generation minTail received now with - | ⟨lease, s'⟩ <;>
      rw [hsplit] at h
    · exact h
    · obtain ⟨l, newStart, -, -, -, -, -, -, hled⟩ := splitTail_ledger hsplit
      rw [hled] at h
      exact absurd h (Ledger.not_finished_of_get? (SortedMap.get?_insert_self _ _ _))
  | bumpGeneration => cases hop
  | setReadyWorkDivisor divisor => exact h

theorem run_finished {s : SegmentScheduler} {ops : List SchedulerOp}
    (hops : ∀ op ∈ ops, op.dissolves = false) (h : (s.run ops).1.ledger.Finished) :
    s.ledger.Finished := by
  induction ops generalizing s with
  | nil => exact h
  | cons op ops ih =>
    exact apply_finished (hops op (List.mem_cons_self ..))
      (ih (fun op' hop' => hops op' (List.mem_cons_of_mem _ hop')) h)

end SegmentScheduler

end KDown
