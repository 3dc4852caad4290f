/-
KDown/LeaseTracking.lean

How far each worker of a segmented job got with its lease, and what the
scheduler knows of it (job/segmented.rs).

A worker that holds a lease has received the bytes before some offset
(`reached`).  Of these the scheduler has absorbed the ones before the lease's
`next_offset`; the rest is in the worker's hand (`inHand`): received, on its way
to the disk or published in the worker's cell.  A chunk adds to what is in
hand, a reconciliation takes from it what it credits (`Effect`).

The invariant `Tracked` says for each phase of a worker how its offset, its
cell and the live lease stand to each other, and that no two workers have the
same lease.  `Tracked.reconcile` is the result for a reconciliation; the events
of the workers follow in `LeaseTrackingSteps`.
-/
import KDown.SchedulerCoverage
import KDown.SegmentedCoverage
import KDown.SegmentedPipeline

namespace KDown

/-! ### Leases only advance -/

namespace Ledger

variable {g g' g'' : Ledger}

/-- A lease in use keeps its generation, its frontier only moves up and its end
only down, and a lease that is gone stays gone. -/
structure Advances (g g' : Ledger) : Prop where
  nextLease_le : g.nextLease ≤ g'.nextLease
  lease : ∀ {id l'}, id < g.nextLease → g'.active.get? id = some l' →
    ∃ l, g.active.get? id = some l ∧ l'.generation = l.generation ∧
      l.nextOffset ≤ l'.nextOffset ∧ l'.stop ≤ l.stop

theorem Advances.refl (g : Ledger) : Advances g g :=
  ⟨le_rfl, fun {_ l'} _ h => ⟨l', h, rfl, le_rfl, le_rfl⟩⟩

theorem Advances.trans (h : Advances g g') (h' : Advances g' g'') : Advances g g'' := by
  refine ⟨h.nextLease_le.trans h'.nextLease_le, fun {id l''} hid hl'' => ?_⟩
  obtain ⟨l', hl', hgen', hnext', hstop'⟩ := h'.lease (hid.trans_le h.nextLease_le) hl''
  obtain ⟨l, hl, hgen, hnext, hstop⟩ := h.lease hid hl'
  exact ⟨l, hl, hgen'.trans hgen, hnext.trans hnext', hstop'.trans hstop⟩

/-- Every call of the scheduler advances its ledger. -/
theorem Step.advances (hg : g.WellFormed) (h : Step g g') : Advances g g' := by
  refine ⟨h.nextLease_le, fun {id l'} hid hl' => ?_⟩
  cases h with
  | carve hgap hord hend =>
    rw [Ledger.carve, SortedMap.get?_insert_of_ne _ _ hid.ne] at hl'
    exact ⟨l', hl', rfl, le_rfl, le_rfl⟩
  | @advance a lease next hget hnext hend =>
    have hle := (hg.bounds hget).next_le
    simp only [Ledger.advance, SortedMap.get?_insert] at hl'
    split_ifs at hl' with ha
    · cases hl'
      exact ⟨lease, ha ▸ hget, rfl, by simp only; omega, le_rfl⟩
    · exact ⟨l', hl', rfl, le_rfl, le_rfl⟩
  | credit hget =>
    simp only [Ledger.credit, SortedMap.get?_erase] at hl'
    split_ifs at hl'
    exact ⟨l', hl', rfl, le_rfl, le_rfl⟩
  | giveBack hget =>
    simp only [Ledger.giveBack, SortedMap.get?_erase] at hl'
    split_ifs at hl'
    exact ⟨l', hl', rfl, le_rfl, le_rfl⟩
  | @split a lease newStart hget hlow hend =>
    rw [Ledger.split, SortedMap.get?_insert_of_ne _ _ hid.ne, SortedMap.get?_insert] at hl'
    split_ifs at hl' with ha
    · cases hl'
      exact ⟨lease, ha ▸ hget, rfl, le_rfl, by simp only; omega⟩
    · exact ⟨l', hl', rfl, le_rfl, le_rfl⟩
  | bump => exact ⟨l', hl', rfl, le_rfl, le_rfl⟩

theorem advances_of_steps (hg : g.WellFormed) (h : Relation.ReflTransGen Step g g') :
    Advances g g' := by
  induction h with
  | refl => exact .refl g
  | tail hsteps hstep ih => exact ih.trans (hstep.advances (hg.steps hsteps))

/-- A lease that is gone stays gone. -/
theorem Advances.dead (h : Advances g g') {id : ℕ} (hid : id < g.nextLease)
    (hdead : g.active.get? id = none) : g'.active.get? id = none := by
  cases e : g'.active.get? id with
  | none => rfl
  | some l' =>
    obtain ⟨l, hl, -⟩ := h.lease hid e
    rw [hdead] at hl
    cases hl

end Ledger

/-! ### Bytes in hand -/

/-- The worker's copy of the lease it works on. -/
def Phase.lease? : Phase → Option SegmentLease
  | .idle => none
  | .holding lease => some lease
  | .opening t => some t.lease
  | .reading t => some t.lease
  | .writing t _ _ => some t.lease
  | .pipelining t _ => some t.lease
  | .draining t _ _ => some t.lease
  | .closing t _ => some t.lease
  | .settling lease _ => some lease
  | .exited => none

/-- The last call of an ending with an error. -/
def Settle.isFinal : Settle → Bool
  | .decide _ | .install _ => true
  | _ => false

namespace SegmentedState

variable {cfg : SegmentedConfig} {s s' : SegmentedState} {w v : ℕ}

/-- The offset before which the worker has received everything. -/
def reachedIn (s : SegmentedState) (w : ℕ) : Phase → ℕ
  | .idle => 0
  | .holding lease => s.startFrom w lease
  | .opening t => t.absOffset
  | .reading t => t.absOffset
  | .writing t owned _ => t.absOffset + owned
  | .pipelining t _ => t.absOffset
  | .draining t _ _ => t.absOffset
  | .closing _ through => through
  | .settling lease _ => s.startFrom w lease
  | .exited => 0

/-- The offset the worker has reached in its lease. -/
def reached (s : SegmentedState) (w : ℕ) : ℕ := s.reachedIn w (s.phases w)

/-- Bytes received for a live lease that the scheduler has not absorbed. -/
def inHand (s : SegmentedState) (w : ℕ) : ℕ :=
  ((s.phases w).lease?.bind fun lease => s.sched.leaseNextOffset lease.id).elim 0
    (s.reached w - ·)

/-! ### What holds of a worker -/

/-- The worker has received the bytes of the lease before `reached` and
published those before `written`. -/
structure Tracks (s : SegmentedState) (w : ℕ) (lease : SegmentLease) (written reached : ℕ) :
    Prop where
  inUse : lease.id < s.sched.nextLease
  low : lease.nextOffset ≤ written
  high : written ≤ reached
  live : ∀ l, s.sched.active.get? lease.id = some l →
    l.generation = lease.generation ∧ lease.nextOffset ≤ l.nextOffset ∧ l.nextOffset ≤ written ∧
      reached ≤ l.stop + 1
  cell : s.cells w = none ∧ written = lease.nextOffset ∨
    ∃ r, s.cells w = some r ∧ r.leaseId = lease.id ∧ r.generation = lease.generation ∧
      r.writtenThrough = written

/-- The scheduler has absorbed the lease to its end. -/
structure Whole (s : SegmentedState) (w : ℕ) (lease : SegmentLease) : Prop where
  inUse : lease.id < s.sched.nextLease
  live : ∀ l, s.sched.active.get? lease.id = some l →
    l.generation = lease.generation ∧ lease.nextOffset ≤ l.nextOffset ∧ l.nextOffset = l.stop + 1
  cell : ∀ r, s.cells w = some r → r.leaseId = lease.id ∧ r.generation = lease.generation ∧
    ∀ l, s.sched.active.get? lease.id = some l → r.writtenThrough = l.stop + 1

/-- The lease is no longer active. -/
structure Gone (s : SegmentedState) (w : ℕ) (lease : SegmentLease) : Prop where
  inUse : lease.id < s.sched.nextLease
  dead : s.sched.active.get? lease.id = none
  cell : ∀ r, s.cells w = some r → r.leaseId = lease.id

/-- What holds between two calls of an ending. -/
inductive Ending (s : SegmentedState) (w : ℕ) (lease : SegmentLease) : List Settle → Prop
  | success {n through : ℕ} : Tracks s w lease n n →
      (∀ l, s.sched.active.get? lease.id = some l → n = l.stop + 1) →
      Ending s w lease
        [.reconcile, .reportProgress through, .clearCell, .reconcile, .complete, .clearCell]
  | report {through : ℕ} : Whole s w lease →
      Ending s w lease [.reportProgress through, .clearCell, .reconcile, .complete, .clearCell]
  | clear : Whole s w lease → Ending s w lease [.clearCell, .reconcile, .complete, .clearCell]
  | again : Whole s w lease → Ending s w lease [.reconcile, .complete, .clearCell]
  | complete : Whole s w lease → Ending s w lease [.complete, .clearCell]
  | cleared : Gone s w lease → Ending s w lease [.clearCell]
  | error {n : ℕ} {last : Settle} : Tracks s w lease n n → last.isFinal = true →
      Ending s w lease [.reconcile, .fail, .clearCell, last]
  | fail {n : ℕ} {last : Settle} : Tracks s w lease n n →
      (∀ l, s.sched.active.get? lease.id = some l → l.nextOffset = n) → last.isFinal = true →
      Ending s w lease [.fail, .clearCell, last]
  | failed {last : Settle} : Gone s w lease → last.isFinal = true →
      Ending s w lease [.clearCell, last]
  | last {last : Settle} : Gone s w lease → s.cells w = none → last.isFinal = true →
      Ending s w lease [last]
  | bump {n : ℕ} {e : DownloadError} : Tracks s w lease n n →
      Ending s w lease [.bumpGeneration, .install e]
  | changed {e : DownloadError} : Gone s w lease → Ending s w lease [.install e]

/-- What holds of a worker in each phase. -/
def PhaseTracks (s : SegmentedState) (w : ℕ) : Phase → Prop
  | .idle => s.cells w = none
  | .holding lease => Tracks s w lease lease.nextOffset lease.nextOffset
  | .opening t => Tracks s w t.lease t.absOffset t.absOffset
  | .reading t => Tracks s w t.lease t.absOffset t.absOffset
  | .writing t owned _ => Tracks s w t.lease t.absOffset (t.absOffset + owned)
  | .pipelining t f =>
      Tracks s w t.lease f.acknowledgedThrough t.absOffset ∧ f.generation = t.lease.generation
  | .draining t f _ =>
      Tracks s w t.lease f.acknowledgedThrough t.absOffset ∧ f.generation = t.lease.generation
  | .closing t through => Tracks s w t.lease through through
  | .settling lease todo => Ending s w lease todo
  | .exited => ∀ r, s.cells w = some r →
      r.leaseId < s.sched.nextLease ∧ s.sched.active.get? r.leaseId = none

/-- Every worker keeps to its own lease. -/
structure Tracked (cfg : SegmentedConfig) (s : SegmentedState) : Prop where
  wellFormed : s.sched.ledger.WellFormed
  total : s.sched.totalSize = cfg.totalSize
  piped : Piped False s
  distinct : ∀ v < cfg.workers, ∀ v' < cfg.workers, v ≠ v' → ∀ lease lease',
    (s.phases v).lease? = some lease → (s.phases v').lease? = some lease' → lease.id ≠ lease'.id
  phases : ∀ v < cfg.workers, PhaseTracks s v (s.phases v)

/-- What an event does to the bytes in hand and to the coverage. -/
structure Effect (cfg : SegmentedConfig) (s s' : SegmentedState) (taken credited : ℕ → ℕ) :
    Prop where
  tracked : Tracked cfg s'
  inHand : ∀ v < cfg.workers, s'.inHand v + credited v = s.inHand v + taken v
  coverage : s'.sched.coverage.card =
    s.sched.coverage.card + ((List.range cfg.workers).map credited).sum

/-! ### Reading the invariant -/

/-- The record of a tracked lease. -/
theorem Tracks.cell_eq {lease : SegmentLease} {written n : ℕ} (ht : Tracks s w lease written n)
    {r : LeaseRecord} (hr : s.cells w = some r) :
    r.leaseId = lease.id ∧ r.generation = lease.generation ∧ r.writtenThrough = written := by
  obtain ⟨hnone, -⟩ | ⟨r', hr', hown⟩ := ht.cell
  · rw [hnone] at hr
    cases hr
  · rw [hr] at hr'
    cases hr'
    exact hown

/-- A request of the lease would start after what was published. -/
theorem Tracks.startFrom {lease : SegmentLease} {written n : ℕ} (h : Tracks s w lease written n) :
    s.startFrom w lease = written := by
  unfold SegmentedState.startFrom
  obtain ⟨hcell, hwritten⟩ | ⟨r, hcell, hid, -, hwritten⟩ := h.cell
  · rw [hcell]
    exact hwritten.symm
  · rw [hcell]
    show (if r.leaseId = lease.id then max r.writtenThrough lease.nextOffset else _) = written
    rw [if_pos hid, hwritten]
    exact max_eq_left h.low

theorem inHand_eq {lease : SegmentLease} (h : (s.phases w).lease? = some lease) :
    s.inHand w = (s.sched.leaseNextOffset lease.id).elim 0 (s.reached w - ·) := by
  rw [inHand, h]
  rfl

theorem inHand_of_none (h : (s.phases w).lease? = none) : s.inHand w = 0 := by
  rw [inHand, h]
  rfl

theorem leaseNextOffset_of_get? {sched : SegmentScheduler} {id : ℕ} {l : SegmentLease}
    (h : sched.active.get? id = some l) : sched.leaseNextOffset id = some l.nextOffset := by
  rw [SegmentScheduler.leaseNextOffset, h]
  rfl

theorem leaseNextOffset_of_dead {sched : SegmentScheduler} {id : ℕ}
    (h : sched.active.get? id = none) : sched.leaseNextOffset id = none := by
  rw [SegmentScheduler.leaseNextOffset, h]
  rfl

theorem inHand_of_dead {lease : SegmentLease} (h : (s.phases w).lease? = some lease)
    (hdead : s.sched.active.get? lease.id = none) : s.inHand w = 0 := by
  rw [inHand_eq h, leaseNextOffset_of_dead hdead]
  rfl

theorem inHand_of_live {lease l : SegmentLease} (h : (s.phases w).lease? = some lease)
    (hl : s.sched.active.get? lease.id = some l) : s.inHand w = s.reached w - l.nextOffset := by
  rw [inHand_eq h, leaseNextOffset_of_get? hl]
  rfl

/-- The three ways in which a worker stands to its lease. -/
theorem PhaseTracks.view {p : Phase} {lease : SegmentLease} (h : PhaseTracks s w p)
    (hl : p.lease? = some lease) :
    (∃ written, Tracks s w lease written (s.reachedIn w p)) ∨
      (Whole s w lease ∧ s.reachedIn w p = s.startFrom w lease) ∨ Gone s w lease := by
  have hpublished : ∀ (todo : List Settle) {n : ℕ}, Tracks s w lease n n →
      Tracks s w lease n (s.reachedIn w (.settling lease todo)) := by
    intro todo n ht
    show Tracks s w lease n (s.startFrom w lease)
    rw [ht.startFrom]
    exact ht
  cases p with
  | idle => cases hl
  | exited => cases hl
  | holding lease' =>
    cases hl
    have ht : Tracks s w lease lease.nextOffset lease.nextOffset := h
    exact .inl ⟨_, hpublished [] ht⟩
  | opening t | reading t | writing t owned truncated | closing t through =>
    cases hl
    exact .inl ⟨_, h⟩
  | pipelining t f | draining t f retry =>
    cases hl
    exact .inl ⟨_, h.1⟩
  | settling lease' todo =>
    cases hl
    cases (h : Ending s w lease todo) with
    | success ht => exact .inl ⟨_, hpublished _ ht⟩
    | error ht => exact .inl ⟨_, hpublished _ ht⟩
    | fail ht => exact .inl ⟨_, hpublished _ ht⟩
    | bump ht => exact .inl ⟨_, hpublished _ ht⟩
    | report hwhole => exact .inr (.inl ⟨hwhole, rfl⟩)
    | clear hwhole => exact .inr (.inl ⟨hwhole, rfl⟩)
    | again hwhole => exact .inr (.inl ⟨hwhole, rfl⟩)
    | complete hwhole => exact .inr (.inl ⟨hwhole, rfl⟩)
    | cleared hgone => exact .inr (.inr hgone)
    | failed hgone => exact .inr (.inr hgone)
    | last hgone => exact .inr (.inr hgone)
    | changed hgone => exact .inr (.inr hgone)

/-- Whoever works on a lease has an id in use. -/
theorem PhaseTracks.inUse {p : Phase} {lease : SegmentLease} (h : PhaseTracks s w p)
    (hl : p.lease? = some lease) : lease.id < s.sched.nextLease := by
  obtain ⟨written, ht⟩ | ⟨hwhole, -⟩ | hgone := h.view hl
  · exact ht.inUse
  · exact hwhole.inUse
  · exact hgone.inUse

/-- A published record of a live lease is the worker's own and lies inside the
lease. -/
theorem PhaseTracks.cell {p : Phase} {r : LeaseRecord} {l : SegmentLease}
    (h : PhaseTracks s w p) (hr : s.cells w = some r)
    (hl : s.sched.active.get? r.leaseId = some l) :
    (∃ lease, p.lease? = some lease ∧ lease.id = r.leaseId) ∧ l.generation = r.generation ∧
      l.nextOffset ≤ r.writtenThrough ∧ r.writtenThrough ≤ l.stop + 1 := by
  cases hp : p.lease? with
  | none =>
    -- idle workers publish nothing, the records of exited ones are dead
    cases p with
    | idle =>
      have hnone : s.cells w = none := h
      rw [hnone] at hr
      cases hr
    | exited =>
      have hdead := (h r hr).2
      rw [hdead] at hl
      cases hl
    | _ => cases hp
  | some lease =>
    obtain ⟨written, ht⟩ | ⟨hwhole, -⟩ | hgone := h.view hp
    · obtain ⟨hnone, -⟩ | ⟨r', hr', hid, hgen, hwritten⟩ := ht.cell
      · rw [hnone] at hr
        cases hr
      · rw [hr] at hr'
        cases hr'
        rw [hid] at hl
        obtain ⟨hlgen, -, hnext, hreach⟩ := ht.live l hl
        refine ⟨⟨lease, rfl, hid.symm⟩, hlgen.trans hgen.symm, ?_, ?_⟩
        · rw [hwritten]
          exact hnext
        · rw [hwritten]
          exact ht.high.trans hreach
    · obtain ⟨hid, hgen, hend⟩ := hwhole.cell r hr
      rw [hid] at hl
      obtain ⟨hlgen, -, hnext⟩ := hwhole.live l hl
      refine ⟨⟨lease, rfl, hid.symm⟩, hlgen.trans hgen.symm, ?_, (hend l hl).le⟩
      rw [hnext, hend l hl]
    · rw [hgone.cell r hr, hgone.dead] at hl
      cases hl

/-- **Nothing of a lease that was absorbed to its end is in hand.** -/
theorem Whole.inHand {lease : SegmentLease} (h : Whole s w lease)
    (hp : (s.phases w).lease? = some lease) (hreach : s.reached w = s.startFrom w lease) :
    s.inHand w = 0 := by
  cases hl : s.sched.active.get? lease.id with
  | none => exact inHand_of_dead hp hl
  | some l =>
    obtain ⟨-, hlow, hnext⟩ := h.live l hl
    rw [inHand_of_live hp hl, hreach]
    apply Nat.sub_eq_zero_of_le
    unfold SegmentedState.startFrom
    cases hr : s.cells w with
    | none => exact hlow
    | some r =>
      obtain ⟨hid, -, hend⟩ := h.cell r hr
      show (if r.leaseId = lease.id then max r.writtenThrough lease.nextOffset else _) ≤ _
      rw [if_pos hid, hend l hl, hnext]
      exact max_le le_rfl (hlow.trans hnext.le)

/-! ### What a step leaves alone -/

theorem Tracks.frame {lease : SegmentLease} {written n : ℕ} (h : Tracks s w lease written n)
    (hadv : s.sched.ledger.Advances s'.sched.ledger) (hcell : s'.cells w = s.cells w)
    (hinside : ∀ l', s'.sched.active.get? lease.id = some l' →
      l'.nextOffset ≤ written ∧ n ≤ l'.stop + 1) : Tracks s' w lease written n where
  inUse := h.inUse.trans_le hadv.nextLease_le
  low := h.low
  high := h.high
  live := by
    intro l' hl'
    obtain ⟨l, hl, hgen, hnext, -⟩ := hadv.lease h.inUse hl'
    obtain ⟨hlgen, hlow, -, -⟩ := h.live l hl
    obtain ⟨hwritten, hreach⟩ := hinside l' hl'
    exact ⟨hgen.trans hlgen, hlow.trans hnext, hwritten, hreach⟩
  cell := by
    rw [hcell]
    exact h.cell

/-- A step of another worker leaves a lease and its record whole. -/
theorem Whole.frame {lease : SegmentLease} (h : Whole s w lease)
    (hadv : s.sched.ledger.Advances s'.sched.ledger) (hwf : s'.sched.ledger.WellFormed)
    (hcell : s'.cells w = s.cells w) : Whole s' w lease := by
  -- the frontier stands at the end, which can only have moved down to it
  have hsame : ∀ l', s'.sched.active.get? lease.id = some l' →
      ∃ l, s.sched.active.get? lease.id = some l ∧ l'.generation = l.generation ∧
        l.nextOffset = l'.nextOffset ∧ l'.stop = l.stop := by
    intro l' hl'
    obtain ⟨l, hl, hgen, hnext, hstop⟩ := hadv.lease h.inUse hl'
    have hend := (h.live l hl).2.2
    have hle := (hwf.bounds hl').next_le
    exact ⟨l, hl, hgen, by omega, by omega⟩
  refine ⟨h.inUse.trans_le hadv.nextLease_le, fun l' hl' => ?_, fun r hr => ?_⟩
  · obtain ⟨l, hl, hgen, hnext, hstop⟩ := hsame l' hl'
    obtain ⟨hlgen, hlow, hend⟩ := h.live l hl
    exact ⟨hgen.trans hlgen, hlow.trans hnext.le, by rw [← hnext, hstop]; exact hend⟩
  · rw [hcell] at hr
    obtain ⟨hid, hgen, hend⟩ := h.cell r hr
    refine ⟨hid, hgen, fun l' hl' => ?_⟩
    obtain ⟨l, hl, -, -, hstop⟩ := hsame l' hl'
    rw [hstop]
    exact hend l hl

theorem Gone.frame {lease : SegmentLease} (h : Gone s w lease)
    (hadv : s.sched.ledger.Advances s'.sched.ledger) (hcell : s'.cells w = s.cells w) :
    Gone s' w lease where
  inUse := h.inUse.trans_le hadv.nextLease_le
  dead := hadv.dead h.inUse h.dead
  cell := by
    rw [hcell]
    exact h.cell

/-- A worker whose cell is not touched stays where it is if its lease is not
moved past it. -/
theorem PhaseTracks.frame {p : Phase} (h : PhaseTracks s w p)
    (hadv : s.sched.ledger.Advances s'.sched.ledger) (hwf : s'.sched.ledger.WellFormed)
    (hcell : s'.cells w = s.cells w)
    (hinside : ∀ lease written, p.lease? = some lease →
      Tracks s w lease written (s.reachedIn w p) →
      ∀ l', s'.sched.active.get? lease.id = some l' →
        l'.nextOffset ≤ written ∧ s.reachedIn w p ≤ l'.stop + 1) : PhaseTracks s' w p := by
  have hkeep : ∀ {lease : SegmentLease} {written n : ℕ}, p.lease? = some lease →
      s.reachedIn w p = n → Tracks s w lease written n → Tracks s' w lease written n := by
    intro lease written n hl hn ht
    subst hn
    exact ht.frame hadv hcell (hinside lease written hl ht)
  cases p with
  | idle => exact hcell.trans h
  | exited =>
    intro r hr
    rw [hcell] at hr
    obtain ⟨hid, hdead⟩ := h r hr
    exact ⟨hid.trans_le hadv.nextLease_le, hadv.dead hid hdead⟩
  | holding lease =>
    have ht : Tracks s w lease lease.nextOffset lease.nextOffset := h
    exact hkeep rfl ht.startFrom ht
  | opening t | reading t | writing t owned truncated | closing t through =>
    exact hkeep rfl rfl h
  | pipelining t f | draining t f retry => exact ⟨hkeep rfl rfl h.1, h.2⟩
  | settling lease todo =>
    cases (h : Ending s w lease todo) with
    | success ht hend =>
      have ht' := hkeep rfl ht.startFrom ht
      refine .success ht' fun l' hl' => ?_
      obtain ⟨l, hl, -, -, hstop⟩ := hadv.lease ht.inUse hl'
      have hle := (ht'.live l' hl').2.2.2
      have := hend l hl
      omega
    | error ht hlast => exact .error (hkeep rfl ht.startFrom ht) hlast
    | fail ht habs hlast =>
      have ht' := hkeep rfl ht.startFrom ht
      refine .fail ht' (fun l' hl' => ?_) hlast
      obtain ⟨l, hl, -, hnext, -⟩ := hadv.lease ht.inUse hl'
      have hle := (ht'.live l' hl').2.2.1
      have := habs l hl
      omega
    | bump ht => exact .bump (hkeep rfl ht.startFrom ht)
    | report hwhole => exact .report (hwhole.frame hadv hwf hcell)
    | clear hwhole => exact .clear (hwhole.frame hadv hwf hcell)
    | again hwhole => exact .again (hwhole.frame hadv hwf hcell)
    | complete hwhole => exact .complete (hwhole.frame hadv hwf hcell)
    | cleared hgone => exact .cleared (hgone.frame hadv hcell)
    | failed hgone hlast => exact .failed (hgone.frame hadv hcell) hlast
    | last hgone hnone hlast =>
      exact .last (hgone.frame hadv hcell) (hcell.trans hnone) hlast
    | changed hgone => exact .changed (hgone.frame hadv hcell)

/-- A worker whose phase and cell stay, and whose lease keeps its frontier, has
as much in hand as before. -/
theorem inHand_congr (hphase : s'.phases w = s.phases w) (hcell : s'.cells w = s.cells w)
    (hnext : ∀ lease, (s.phases w).lease? = some lease →
      s'.sched.leaseNextOffset lease.id = s.sched.leaseNextOffset lease.id) :
    s'.inHand w = s.inHand w := by
  have hreach : s'.reached w = s.reached w := by
    rw [reached, reached, hphase]
    cases s.phases w <;> simp only [reachedIn, SegmentedState.startFrom, hcell]
  cases hl : (s.phases w).lease? with
  | none => rw [inHand_of_none hl, inHand_of_none (by rw [hphase]; exact hl)]
  | some lease =>
    rw [inHand_eq hl, inHand_eq (by rw [hphase]; exact hl), hnext lease hl, hreach]

/-- One worker moves; the others keep phase and cell, and their leases are not
moved past them. -/
theorem Tracked.update (h : Tracked cfg s)
    (hsteps : Relation.ReflTransGen Ledger.Step s.sched.ledger s'.sched.ledger)
    (hpiped : Piped False s')
    (hothers : ∀ v, v ≠ w → s'.phases v = s.phases v ∧ s'.cells v = s.cells v)
    (hinside : ∀ v < cfg.workers, v ≠ w → ∀ lease written, (s.phases v).lease? = some lease →
      Tracks s v lease written (s.reached v) → ∀ l', s'.sched.active.get? lease.id = some l' →
        l'.nextOffset ≤ written ∧ s.reached v ≤ l'.stop + 1)
    (hlease : ∀ lease, (s'.phases w).lease? = some lease →
      (s.phases w).lease? = some lease ∨ s.sched.nextLease ≤ lease.id)
    (hphase : PhaseTracks s' w (s'.phases w)) : Tracked cfg s' where
  wellFormed := h.wellFormed.steps hsteps
  total := (SegmentScheduler.steps_totalSize hsteps).trans h.total
  piped := hpiped
  distinct := by
    -- the lease of the worker that moves is its old one or a new one
    have hmoved : ∀ v < cfg.workers, v ≠ w → w < cfg.workers → ∀ lease lease',
        (s.phases v).lease? = some lease → (s'.phases w).lease? = some lease' →
        lease.id ≠ lease'.id := by
      intro v hv hne hw lease lease' hl hl'
      cases hlease lease' hl' with
      | inl hold => exact h.distinct v hv w hw hne lease lease' hl hold
      | inr hnew => exact ((h.phases v hv).inUse hl |>.trans_le hnew).ne
    intro v hv v' hv' hne lease lease' hl hl'
    by_cases hvw : v = w
    · subst hvw
      rw [(hothers v' hne.symm).1] at hl'
      exact (hmoved v' hv' hne.symm hv lease' lease hl' hl).symm
    · rw [(hothers v hvw).1] at hl
      by_cases hvw' : v' = w
      · subst hvw'
        exact hmoved v hv hvw hv' lease lease' hl hl'
      · rw [(hothers v' hvw').1] at hl'
        exact h.distinct v hv v' hv' hne lease lease' hl hl'
  phases := by
    intro v hv
    by_cases hvw : v = w
    · subst hvw
      exact hphase
    · rw [(hothers v hvw).1]
      exact (h.phases v hv).frame (Ledger.advances_of_steps h.wellFormed hsteps)
        (h.wellFormed.steps hsteps) (hothers v hvw).2 fun lease written => hinside v hv hvw lease written

/-- A worker moves and no lease changes. -/
theorem Tracked.move (h : Tracked cfg s) (hledger : s'.sched.ledger = s.sched.ledger)
    (hpiped : Piped False s')
    (hothers : ∀ v, v ≠ w → s'.phases v = s.phases v ∧ s'.cells v = s.cells v)
    (hlease : ∀ lease, (s'.phases w).lease? = some lease → (s.phases w).lease? = some lease)
    (hphase : PhaseTracks s' w (s'.phases w)) (hhand : s'.inHand w = s.inHand w) :
    Effect cfg s s' (fun _ => 0) (fun _ => 0) := by
  have hactive : s'.sched.active = s.sched.active := congrArg Ledger.active hledger
  refine ⟨?_, ?_, ?_⟩
  · refine h.update (w := w) (by rw [hledger]) hpiped hothers ?_
      (fun lease hl => .inl (hlease lease hl)) hphase
    intro v hv hne lease written hl ht l' hl'
    rw [hactive] at hl'
    exact (ht.live l' hl').2.2
  · intro v hv
    by_cases hvw : v = w
    · subst hvw
      exact hhand
    · refine inHand_congr (hothers v hvw).1 (hothers v hvw).2 fun lease _ => ?_
      rw [SegmentScheduler.leaseNextOffset, hactive]
      rfl
  · rw [SegmentScheduler.coverage_eq_of_ledger hledger]
    simp

/-- A worker ends its own lease. -/
theorem Tracked.dissolve (h : Tracked cfg s) (hw : w < cfg.workers) {lease : SegmentLease}
    (hlease : (s.phases w).lease? = some lease) (hzero : s.inHand w = 0)
    (hsteps : Relation.ReflTransGen Ledger.Step s.sched.ledger s'.sched.ledger)
    (hactive : s'.sched.active = s.sched.active.erase lease.id)
    (hcoverage : s'.sched.coverage = s.sched.coverage) (hpiped : Piped False s')
    (hothers : ∀ v, v ≠ w → s'.phases v = s.phases v ∧ s'.cells v = s.cells v)
    (hlease' : (s'.phases w).lease? = some lease) (hphase : PhaseTracks s' w (s'.phases w)) :
    Effect cfg s s' (fun _ => 0) (fun _ => 0) := by
  have hkeep : ∀ v < cfg.workers, v ≠ w → ∀ lease', (s.phases v).lease? = some lease' →
      s'.sched.active.get? lease'.id = s.sched.active.get? lease'.id := by
    intro v hv hne lease' hl'
    rw [hactive]
    exact SortedMap.get?_erase_of_ne _ (h.distinct v hv w hw hne lease' lease hl' hlease)
  refine ⟨?_, ?_, ?_⟩
  · refine h.update (w := w) hsteps hpiped hothers ?_ ?_ hphase
    · intro v hv hne lease' written hl ht l' hl'
      rw [hkeep v hv hne lease' hl] at hl'
      exact (ht.live l' hl').2.2
    · intro lease' hl'
      rw [hlease'] at hl'
      cases hl'
      exact .inl hlease
  · intro v hv
    by_cases hvw : v = w
    · subst hvw
      rw [hzero]
      refine inHand_of_dead hlease' ?_
      rw [hactive]
      exact SortedMap.get?_erase_self _ _
    · refine inHand_congr (hothers v hvw).1 (hothers v hvw).2 fun lease' hl' => ?_
      rw [SegmentScheduler.leaseNextOffset, hkeep v hv hvw lease' hl']
      rfl
  · rw [hcoverage]
    simp

/-- A worker starts on a lease that was just issued. -/
theorem Tracked.issue (h : Tracked cfg s) (hw : s.phases w = .idle) (hwork : w < cfg.workers)
    {start stop : ℕ} {sched : SegmentScheduler} (hord : start ≤ stop)
    (hsteps : Relation.ReflTransGen Ledger.Step s.sched.ledger sched.ledger)
    (hnext : sched.nextLease = s.sched.nextLease + 1)
    (hget : sched.active.get? s.sched.nextLease = some (s.sched.ledger.freshLease start stop))
    (hinside : ∀ v < cfg.workers, v ≠ w → ∀ lease, (s.phases v).lease? = some lease →
      ∀ l', sched.active.get? lease.id = some l' →
        ∃ l, s.sched.active.get? lease.id = some l ∧ l'.nextOffset = l.nextOffset ∧
          (l'.stop = l.stop ∨ s.reached v ≤ l'.stop + 1))
    (hoffsets : ∀ id < s.sched.nextLease,
      sched.leaseNextOffset id = s.sched.leaseNextOffset id)
    (hcoverage : sched.coverage = s.sched.coverage) :
    Effect cfg s
      ({ s with sched := sched }.setPhase w (.holding (s.sched.ledger.freshLease start stop)))
      (fun _ => 0) (fun _ => 0) := by
  have hcell : s.cells w = none := by
    have hp := h.phases w hwork
    rw [hw] at hp
    exact hp
  have hothers : ∀ v, v ≠ w →
      Function.update s.phases w (.holding (s.sched.ledger.freshLease start stop)) v =
        s.phases v ∧ s.cells v = s.cells v :=
    fun v hv => ⟨Function.update_of_ne hv _ _, rfl⟩
  have hphase : ({ s with sched := sched }.setPhase w
      (.holding (s.sched.ledger.freshLease start stop))).phases w =
      .holding (s.sched.ledger.freshLease start stop) := Function.update_self _ _ _
  have htracks : Tracks ({ s with sched := sched }.setPhase w
      (.holding (s.sched.ledger.freshLease start stop))) w (s.sched.ledger.freshLease start stop)
      start start := by
    refine ⟨?_, le_rfl, le_rfl, ?_, .inl ⟨hcell, rfl⟩⟩
    · show s.sched.nextLease < sched.nextLease
      rw [hnext]
      exact Nat.lt_succ_self _
    · intro l hl
      cases hget.symm.trans hl
      exact ⟨rfl, le_rfl, le_rfl, hord.trans (Nat.le_succ _)⟩
  refine ⟨?_, ?_, ?_⟩
  · refine h.update (w := w) hsteps (h.piped.issue hnext) hothers ?_ ?_ ?_
    · intro v hv hne lease written hl ht l' hl'
      obtain ⟨l, hl₀, hoffset, hstop⟩ := hinside v hv hne lease hl l' hl'
      obtain ⟨-, -, hlow, hreach⟩ := ht.live l hl₀
      refine ⟨hoffset.le.trans hlow, ?_⟩
      cases hstop with
      | inl hsame =>
        rw [hsame]
        exact hreach
      | inr hle => exact hle
    · intro lease hl
      rw [hphase] at hl
      cases hl
      exact .inr le_rfl
    · rw [hphase]
      exact htracks
  · intro v hv
    by_cases hvw : v = w
    · subst hvw
      have hnew : (({ s with sched := sched }.setPhase v
          (.holding (s.sched.ledger.freshLease start stop))).phases v).lease? =
          some (s.sched.ledger.freshLease start stop) := by
        rw [hphase]
        rfl
      rw [inHand_of_none (s := s) (by rw [hw]; rfl), inHand_of_live hnew hget]
      show SegmentedState.reached _ v - start = 0
      rw [reached, hphase, reachedIn, htracks.startFrom]
      exact Nat.sub_self _
    · refine inHand_congr (hothers v hvw).1 rfl fun lease hl => ?_
      exact hoffsets lease.id ((h.phases v hv).inUse hl)
  · show sched.coverage.card = _
    rw [hcoverage]
    simp

/-! ### Reconciling -/

theorem Tracked.ownCells (h : Tracked cfg s) :
    s.sched.OwnCells (List.range cfg.workers) s.cells := by
  constructor
  · intro v hv r hr l hl
    exact ((h.phases v (List.mem_range.mp hv)).cell hr hl).2
  · intro v hv v' hv' hne r r' hr hr' hid
    cases hl : s.sched.active.get? r.leaseId with
    | none => rfl
    | some l =>
      -- two workers would work on one lease
      rw [List.mem_range] at hv hv'
      obtain ⟨⟨lease, hlease, heq⟩, -⟩ := (h.phases v hv).cell hr hl
      rw [← hid] at hl
      obtain ⟨⟨lease', hlease', heq'⟩, -⟩ := (h.phases v' hv').cell hr' hl
      exact absurd (heq.trans (hid.symm.trans heq'.symm))
        (h.distinct v hv v' hv' hne lease lease' hlease hlease')

/-- The live lease of a worker after a reconciliation. -/
theorem Tracked.get?_reconcile (h : Tracked cfg s) (hv : v < cfg.workers) {lease l : SegmentLease}
    (hlease : (s.phases v).lease? = some lease) (hl : s.sched.active.get? lease.id = some l) :
    (s.reconcile cfg.workers).sched.active.get? lease.id =
      some { l with nextOffset := (s.cells v).elim l.nextOffset (·.writtenThrough) } := by
  obtain ⟨-, hothers, hown⟩ :=
    SegmentScheduler.absorbWorkerProgress_own List.nodup_range h.ownCells
  have hmem : v ∈ List.range cfg.workers := List.mem_range.mpr hv
  cases hr : s.cells v with
  | none =>
    -- nobody else publishes for the lease
    refine (hothers lease.id fun v' hv' r' hr' hid => ?_).trans hl
    by_cases hne : v' = v
    · rw [hne, hr] at hr'
      cases hr'
    · rw [← hid] at hl
      obtain ⟨⟨lease', hlease', heq'⟩, -⟩ := (h.phases v' (List.mem_range.mp hv')).cell hr' hl
      exact h.distinct v' (List.mem_range.mp hv') v hv hne lease' lease hlease' hlease
        (heq'.trans hid)
  | some r =>
    have hid : r.leaseId = lease.id := by
      obtain ⟨written, ht⟩ | ⟨hwhole, -⟩ | hgone := (h.phases v hv).view hlease
      · exact (ht.cell_eq hr).1
      · exact (hwhole.cell r hr).1
      · exact hgone.cell r hr
    rw [← hid] at hl ⊢
    exact hown v hmem r hr l hl

theorem Tracked.dead_reconcile (h : Tracked cfg s) {id : ℕ} (hid : id < s.sched.nextLease)
    (hdead : s.sched.active.get? id = none) :
    (s.reconcile cfg.workers).sched.active.get? id = none :=
  (Ledger.advances_of_steps h.wellFormed (s.sched.absorbWorkerProgress_steps _)).dead hid hdead

/-- What a reconciliation absorbs of a worker that publishes all before
`written`. -/
theorem Tracked.absorbed (h : Tracked cfg s) (hv : v < cfg.workers) {lease : SegmentLease}
    {written n : ℕ} (hlease : (s.phases v).lease? = some lease)
    (ht : Tracks s v lease written n) {l' : SegmentLease}
    (hl' : (s.reconcile cfg.workers).sched.active.get? lease.id = some l') :
    l'.nextOffset = written ∧ n ≤ l'.stop + 1 := by
  cases hl : s.sched.active.get? lease.id with
  | none =>
    rw [h.dead_reconcile ht.inUse hl] at hl'
    cases hl'
  | some l =>
    obtain ⟨-, hlow, hnext, hreach⟩ := ht.live l hl
    rw [h.get?_reconcile hv hlease hl] at hl'
    cases hl'
    refine ⟨?_, hreach⟩
    obtain ⟨hnone, hwritten⟩ | ⟨r, hr, -, -, hwritten⟩ := ht.cell
    · rw [hnone]
      exact le_antisymm hnext (hwritten.le.trans hlow)
    · rw [hr]
      exact hwritten

/-- A record of a dead lease is worth nothing. -/
theorem absorbCell_of_deadLease {lease : SegmentLease}
    (hdead : s.sched.active.get? lease.id = none)
    (hcell : ∀ r, s.cells v = some r → r.leaseId = lease.id) :
    (s.sched.absorbCell (s.cells v)).1 = 0 := by
  cases hr : s.cells v with
  | none => rfl
  | some r =>
    rw [← hcell r hr] at hdead
    rw [SegmentScheduler.absorbCell_of_dead hdead]

/-- A worker without a lease has left no record that is worth anything. -/
theorem Tracked.absorbCell_of_none (h : Tracked cfg s) (hv : v < cfg.workers)
    (hlease : (s.phases v).lease? = none) : (s.sched.absorbCell (s.cells v)).1 = 0 := by
  cases hr : s.cells v with
  | none => rfl
  | some r =>
    cases hl : s.sched.active.get? r.leaseId with
    | none => rw [SegmentScheduler.absorbCell_of_dead hl]
    | some l =>
      obtain ⟨⟨lease, hno, -⟩, -⟩ := (h.phases v hv).cell hr hl
      rw [hlease] at hno
      cases hno

/-- What has been absorbed to the end is not credited again. -/
theorem Whole.absorbCell {lease : SegmentLease} (hwhole : Whole s v lease) :
    (s.sched.absorbCell (s.cells v)).1 = 0 := by
  cases hl : s.sched.active.get? lease.id with
  | none => exact absorbCell_of_deadLease hl fun r hr => (hwhole.cell r hr).1
  | some l =>
    cases hr : s.cells v with
    | none => rfl
    | some r =>
      obtain ⟨hid, hrgen, hwritten⟩ := hwhole.cell r hr
      obtain ⟨hgen, -, hnext⟩ := hwhole.live l hl
      have hend := hwritten l hl
      rw [← hid] at hl
      rw [(SegmentScheduler.absorbCell_of_live hl (hgen.trans hrgen.symm) (by omega) hend.le).1]
      omega

/-- A reconciliation takes from the hand of a worker what the record credits. -/
theorem Tracked.inHand_reconcile (h : Tracked cfg s) (hv : v < cfg.workers) {lease : SegmentLease}
    {written : ℕ} (hlease : (s.phases v).lease? = some lease)
    (ht : Tracks s v lease written (s.reached v)) :
    (s.reconcile cfg.workers).inHand v + (s.sched.absorbCell (s.cells v)).1 = s.inHand v := by
  cases hl : s.sched.active.get? lease.id with
  | none =>
    rw [inHand_of_dead hlease hl, absorbCell_of_deadLease hl fun r hr => (ht.cell_eq hr).1,
      inHand_of_dead (s := s.reconcile cfg.workers) hlease (h.dead_reconcile ht.inUse hl)]
  | some l =>
    obtain ⟨hgen, hlow, hnext, hend⟩ := ht.live l hl
    have hl' := h.get?_reconcile hv hlease hl
    have hnext' := (h.absorbed hv hlease ht hl').1
    have hhigh : written ≤ s.reached v := ht.high
    rw [inHand_of_live hlease hl, inHand_of_live (s := s.reconcile cfg.workers) hlease hl',
      hnext']
    show s.reached v - written + _ = s.reached v - l.nextOffset
    cases hr : s.cells v with
    | none =>
      rw [hr] at hnext'
      have hsame : l.nextOffset = written := hnext'
      rw [hsame]
      rfl
    | some r =>
      obtain ⟨hid, hrgen, hwritten⟩ := ht.cell_eq hr
      rw [← hid] at hl
      rw [(SegmentScheduler.absorbCell_of_live hl (hgen.trans hrgen.symm)
        (hwritten ▸ hnext) (hwritten ▸ ht.high.trans hend)).1, hwritten]
      omega

/-- **A reconciliation takes from every worker's hand what it credits.** -/
theorem Tracked.reconcile (h : Tracked cfg s) :
    Effect cfg s (s.reconcile cfg.workers) (fun _ => 0)
      (fun v => (s.sched.absorbCell (s.cells v)).1) := by
  have hsteps := s.sched.absorbWorkerProgress_steps ((List.range cfg.workers).map s.cells)
  have hadv := Ledger.advances_of_steps h.wellFormed hsteps
  have hwf := h.wellFormed.steps hsteps
  have hframe : ∀ v < cfg.workers, PhaseTracks (s.reconcile cfg.workers) v (s.phases v) := by
    intro v hv
    refine (h.phases v hv).frame hadv hwf rfl fun lease written hl ht l' hl' => ?_
    obtain ⟨hnext, hreach⟩ := h.absorbed hv hl ht hl'
    exact ⟨hnext.le, hreach⟩
  refine ⟨⟨hwf, (SegmentScheduler.steps_totalSize hsteps).trans h.total, ?_, h.distinct, hframe⟩,
    ?_, ?_⟩
  · exact h.piped.frame hadv.nextLease_le rfl fun _ => rfl
  · intro v hv
    show (s.reconcile cfg.workers).inHand v + (s.sched.absorbCell (s.cells v)).1 = s.inHand v
    cases hlease : (s.phases v).lease? with
    | none =>
      rw [inHand_of_none hlease, inHand_of_none (s := s.reconcile cfg.workers) hlease,
        h.absorbCell_of_none hv hlease]
    | some lease =>
      obtain ⟨written, ht⟩ | ⟨hwhole, hreach⟩ | hgone := (h.phases v hv).view hlease
      · exact h.inHand_reconcile hv hlease ht
      · have hwhole' : Whole (s.reconcile cfg.workers) v lease := hwhole.frame hadv hwf rfl
        rw [hwhole.inHand hlease hreach, hwhole'.inHand hlease hreach, hwhole.absorbCell]
      · rw [inHand_of_dead hlease hgone.dead, absorbCell_of_deadLease hgone.dead hgone.cell,
          inHand_of_dead (s := s.reconcile cfg.workers) hlease
            (h.dead_reconcile hgone.inUse hgone.dead)]
  · obtain ⟨hdeltas, -⟩ := SegmentScheduler.absorbWorkerProgress_own List.nodup_range h.ownCells
    show (s.sched.absorbWorkerProgress _).2.coverage.card = _
    rw [SegmentScheduler.card_coverage_absorb h.wellFormed, hdeltas]

end SegmentedState

end KDown
