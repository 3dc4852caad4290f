/-
KDown/WorkerPoolSafety.lean

When workers may leave, and when parked workers are woken.

A worker leaves its loop when the job is cancelled or failed or all work is
settled.  One exit reads "no active lease" after "nothing to acquire", and a
failing worker can return its range in between; `workers_exit_lawfully` holds
for the runs in which that does not happen, and `requeue_strands_work` is a
run in which it does.

A failure must be followed by a notification, or workers that looked at the
fatal flag before it stay parked.  Three paths install a failure and publish
nothing: a failed save of the coordinator, used-up retries, and a lane that
cannot be shut down.  `parked_workers_woken` holds for the runs in which these
paths meet no worker on its way to a park; `save_failure_strands_parked` is a
run in which one does.
-/
import KDown.WorkerPool
import KDown.SchedulerDrain

namespace KDown

open Relation

namespace PoolState

variable {hash : List UInt8 → String} {cfg : PoolConfig} {s s' : PoolState} {w : ℕ}

/-! ### What a worker's event can do -/

/-- A worker's event installs a failure and no notification follows it. -/
def installsSilently (cfg : PoolConfig) (s : PoolState) (w : ℕ) : CycleEvent → Bool
  | .releaseLane failure => failure.isSome
  | .closeLane failure => failure.isSome
  | .work e =>
      match s.job.currentCall w e with
      | some (.decide err) =>
          (s.job.installedBy cfg.coordinator.job w (.decide err)).isSome
      | _ => false
  | _ => false

/-- The ledger of the pool's scheduler. -/
abbrev ledger (s : PoolState) : Ledger := s.job.sched.ledger

/-- Worker `w` moves to the phase `p` by the event `e`. -/
structure Move (cfg : PoolConfig) (s s' : PoolState) (w : ℕ) (e : CycleEvent) (p : CyclePhase) :
    Prop where
  cycles : s'.cycles = Function.update s.cycles w p
  desired : s'.desired = s.desired
  coordinator : s'.core.phase = s.core.phase
  cancelled : s'.job.cancelled = s.job.cancelled
  steps : ReflTransGen Ledger.Step s.ledger s'.ledger
  /-- Whoever finishes the scheduler publishes it. -/
  finishes : s'.ledger.Finished → s.ledger.Finished ∨ s'.signal = s.signal.send
  signal : s'.signal = s.signal ∨ s'.signal = s.signal.send ∨
    s'.signal = s.signal.markSeen w ∧ p.pastFatalCheck = false
  fatal : s'.job.fatal = s.job.fatal ∨
    s'.job.fatal.isSome = true ∧ (p = .installed ∨ s.installsSilently cfg w e = true)
  pastFatal : p.pastFatalCheck = true →
    (s.cycles w).pastFatalCheck = true ∨ s'.job.fatal.isSome = false
  pastFinished : p.pastFinishedCheck = true →
    (s.cycles w).pastFinishedCheck = true ∨ ¬ s'.ledger.Finished
  left : p.hasLeft = true →
    (s.cycles w).hasLeft = true ∨ s.cycles w = .installed ∨ s.job.cancelled = true ∨
      s'.job.fatal.isSome = true ∨ s.ledger.Finished ∨
      e = .checkActive ∧ s.cycles w = .empty ∧ s.job.sched.hasActive = false
  installed : p = .installed → s'.job.fatal.isSome = true
  notified : s.cycles w = .installed → s'.signal = s.signal.send

/-- A check that only moves the program counter. -/
theorem Move.of_setCycle {e : CycleEvent} {p : CyclePhase}
    (hfatal : p.pastFatalCheck = true →
      (s.cycles w).pastFatalCheck = true ∨ s.job.fatal.isSome = false)
    (hfinished : p.pastFinishedCheck = true →
      (s.cycles w).pastFinishedCheck = true ∨ ¬ s.ledger.Finished)
    (hleft : p.hasLeft = true →
      (s.cycles w).hasLeft = true ∨ s.cycles w = .installed ∨ s.job.cancelled = true ∨
        s.job.fatal.isSome = true ∨ s.ledger.Finished ∨
        e = .checkActive ∧ s.cycles w = .empty ∧ s.job.sched.hasActive = false)
    (hp : p ≠ .installed) (hw : s.cycles w ≠ .installed) :
    Move cfg s (s.setCycle w p) w e p where
  cycles := rfl
  desired := rfl
  coordinator := rfl
  cancelled := rfl
  steps := .refl
  finishes := .inl
  signal := .inl rfl
  fatal := .inl rfl
  pastFatal := hfatal
  pastFinished := hfinished
  left := hleft
  installed := fun h => absurd h hp
  notified := fun h => absurd h hw

/-- Releasing a lane installs a failure at most. -/
theorem shutdownLane_spec {failure : Option DownloadError}
    (h : s.shutdownLane w failure = some s') :
    s'.cycles = s.cycles ∧ s'.desired = s.desired ∧ s'.core.phase = s.core.phase ∧
      s'.signal = s.signal ∧ s'.job.cancelled = s.job.cancelled ∧
      s'.job.sched = s.job.sched ∧
      (s'.job.fatal = s.job.fatal ∨ s'.job.fatal.isSome = true ∧ failure.isSome = true) := by
  unfold shutdownLane at h
  split at h
  · rw [← Option.some.inj h]
    exact ⟨rfl, rfl, rfl, rfl, rfl, rfl, .inl rfl⟩
  · rw [← Option.some.inj h]
    refine ⟨rfl, rfl, rfl, rfl, rfl, rfl, .inr ⟨?_, rfl⟩⟩
    simp [setJob, SegmentedState.installFatal]
  · rw [← Option.some.inj h]
    exact ⟨rfl, rfl, rfl, rfl, rfl, rfl, .inl rfl⟩
  · cases h

/-- Only a call that is published removes a lease. -/
theorem dissolves_eq_false {cfg : SegmentedConfig} {job : SegmentedState} {e : WorkerEvent}
    (h : (job.currentCall w e).any Settle.notifies = false) :
    ∀ op ∈ job.schedulerOps cfg w e, op.dissolves = false := by
  intro op hop
  cases e with
  | acquire readyDivisor now =>
    simp only [SegmentedState.schedulerOps, List.mem_cons, List.not_mem_nil, or_false] at hop
    rcases hop with rfl | rfl <;> rfl
  | split leaseId now =>
    simp only [SegmentedState.schedulerOps] at hop
    split at hop
    · rw [List.mem_singleton.mp hop]
      rfl
    · cases hop
  | settle now =>
    simp only [SegmentedState.schedulerOps] at hop
    split at hop
    · rename_i lease call todo hp
      simp only [SegmentedState.currentCall, hp, Option.any_some] at h
      cases call with
      | reconcile | reportProgress =>
        rw [List.mem_singleton.mp hop]
        rfl
      | clearCell | decide | install => cases hop
      | complete | fail | bumpGeneration => cases h
    · cases hop
  | _ => cases hop

/-- What an event of a held or wanted lease does to the job. -/
theorem workerStep_effect {cfg : SegmentedConfig} {job job' : SegmentedState} {e : WorkerEvent}
    (h : job.workerStep cfg w e = some job') :
    ReflTransGen Ledger.Step job.sched.ledger job'.sched.ledger ∧
      job'.cancelled = job.cancelled ∧
      job'.fatal = job.fatal.or ((job.currentCall w e).bind (job.installedBy cfg w)) ∧
      ((job.currentCall w e).any Settle.notifies = false →
        job'.sched.ledger.Finished → job.sched.ledger.Finished) := by
  have hframe := SegmentedState.workerStep_frame cfg h
  refine ⟨?_, hframe.cancelled, hframe.fatal, fun hcall hfin => ?_⟩
  · rw [hframe.sched]
    exact job.sched.run_steps _
  · rw [hframe.sched] at hfin
    exact SegmentScheduler.run_finished (dissolves_eq_false hcall) hfin

/-- Taking a lease moves the loop on to it. -/
theorem activate_spec (cfg : PoolConfig) (s : PoolState) (w : ℕ) :
    (s.activate cfg w).cycles = Function.update s.cycles w .busy ∧
      (s.activate cfg w).desired = s.desired ∧ (s.activate cfg w).core = s.core ∧
      (s.activate cfg w).signal = s.signal := by
  unfold activate
  simp only
  split_ifs <;> exact ⟨rfl, rfl, rfl, rfl⟩

/-- After an event of the transfer: the worker has installed a failure and will
publish it, has given up in silence, or goes on without a failure of its own. -/
theorem afterWork_cases (cfg : PoolConfig) (s : PoolState) (w : ℕ) (job : SegmentedState)
    (call : Option Settle) :
    (∃ err, call = some (.install err) ∧ s.afterWork cfg w job call = .installed) ∨
    (∃ err, call = some (.decide err) ∧
      (s.job.installedBy cfg.coordinator.job w (.decide err)).isSome = true ∧
      s.afterWork cfg w job call = .returning) ∨
    (call.bind (s.job.installedBy cfg.coordinator.job w) = none ∧
      (s.afterWork cfg w job call = .top ∨ s.afterWork cfg w job call = .busy)) := by
  have hother : s.afterWork cfg w job none = .top ∨ s.afterWork cfg w job none = .busy := by
    simp only [afterWork]
    split
    · exact .inl rfl
    · exact .inr rfl
  rcases call with - | call
  · exact .inr (.inr ⟨rfl, hother⟩)
  cases call with
  | install err => exact .inl ⟨err, rfl, rfl⟩
  | decide err =>
    by_cases hgive : (s.job.installedBy cfg.coordinator.job w (.decide err)).isSome = true
    · exact .inr (.inl ⟨err, rfl, hgive, by simp [afterWork, hgive]⟩)
    · refine .inr (.inr ⟨?_, .inl (by simp [afterWork, hgive])⟩)
      rw [Option.bind_some]
      exact Option.not_isSome_iff_eq_none.mp hgive
  | _ => exact .inr (.inr ⟨rfl, hother⟩)

/-- An event of the transfer is a move. -/
theorem work_move {e : WorkerEvent} (h : s.cycleStep cfg w (.work e) = some s') :
    ∃ p, Move cfg s s' w (.work e) p := by
  simp only [cycleStep] at h
  split at h
  swap
  · cases h
  rename_i hw
  split at h
  swap
  · cases h
  obtain ⟨job, hjob, hs'⟩ := Option.map_eq_some_iff.mp h
  obtain ⟨hsteps, hcan, hfatal, hfin⟩ := workerStep_effect hjob
  -- the signal is sent, or looked at while the body waits, or left alone
  have hparts : s'.core = { s.core with job := job } ∧ s'.desired = s.desired ∧
      s'.cycles = Function.update s.cycles w (s.afterWork cfg w job (s.job.currentCall w e)) ∧
      (s'.signal = s.signal.send ∨ (s.job.currentCall w e).any Settle.notifies = false ∧
        (s'.signal = s.signal ∨ s'.signal = s.signal.markSeen w)) := by
    rw [← hs']
    simp only
    split_ifs with hnot
    · exact ⟨rfl, rfl, rfl, .inl rfl⟩
    · split
      · exact ⟨rfl, rfl, rfl, .inr ⟨by simpa using hnot, .inr rfl⟩⟩
      · exact ⟨rfl, rfl, rfl, .inr ⟨by simpa using hnot, .inl rfl⟩⟩
  obtain ⟨hcore, hdes, hcyc, hsig⟩ := hparts
  have hjob' : s'.job = job := by rw [PoolState.job, hcore]
  have hled : s'.ledger = job.sched.ledger := by rw [← hjob']
  have hnext := s.afterWork_cases cfg w job (s.job.currentCall w e)
  have hpast : (s.afterWork cfg w job (s.job.currentCall w e)).pastFatalCheck = false ∧
      (s.afterWork cfg w job (s.job.currentCall w e)).pastFinishedCheck = false := by
    rcases hnext with ⟨_, -, hp⟩ | ⟨_, -, -, hp⟩ | ⟨-, hp | hp⟩ <;> rw [hp] <;> exact ⟨rfl, rfl⟩
  refine ⟨_, hcyc, hdes, by rw [hcore], by rw [hjob']; exact hcan,
    by rw [hled]; exact hsteps, fun hf => ?_, ?_, ?_, ?_, ?_, fun hl => ?_, fun hp => ?_,
    by simp [hw]⟩
  · rcases hsig with hsig | ⟨hnot, -⟩
    · exact .inr hsig
    · rw [hled] at hf
      exact .inl (hfin hnot hf)
  · rcases hsig with hsig | ⟨-, hsig | hsig⟩
    · exact .inr (.inl hsig)
    · exact .inl hsig
    · exact .inr (.inr ⟨hsig, hpast.1⟩)
  · rw [hjob', hfatal]
    rcases hnext with ⟨err, hcall, hp⟩ | ⟨err, hcall, hgive, hp⟩ | ⟨hnone, -⟩
    · exact .inr ⟨by simp [hcall, SegmentedState.installedBy], .inl hp⟩
    · refine .inr ⟨?_, .inr ?_⟩
      · rw [hcall, Option.bind_some, Option.isSome_or, hgive, Bool.or_true]
      · simp only [installsSilently, hcall]
        exact hgive
    · left
      rw [hnone, Option.or_none]
  · simp [hpast.1]
  · simp [hpast.2]
  · right; right; right; left
    rw [hjob', hfatal]
    rcases hnext with ⟨err, hcall, hp⟩ | ⟨err, hcall, hgive, hp⟩ | ⟨-, hp | hp⟩
    · simp [hcall, SegmentedState.installedBy]
    · rw [hcall, Option.bind_some, Option.isSome_or, hgive, Bool.or_true]
    · rw [hp] at hl
      cases hl
    · rw [hp] at hl
      cases hl
  · rw [hjob', hfatal]
    rcases hnext with ⟨err, hcall, -⟩ | ⟨err, -, -, hp'⟩ | ⟨-, hp' | hp'⟩
    · simp [hcall, SegmentedState.installedBy]
    all_goals
      rw [hp'] at hp
      cases hp

/-- The worker leaves its loop for one of the reasons. -/
theorem Move.of_return {e : CycleEvent}
    (hreason : s.job.cancelled = true ∨ s.job.fatal.isSome = true ∨ s.ledger.Finished ∨
      e = .checkActive ∧ s.cycles w = .empty ∧ s.job.sched.hasActive = false)
    (hw : s.cycles w ≠ .installed) : Move cfg s (s.setCycle w .returning) w e .returning := by
  refine .of_setCycle (fun h => ?_) (fun h => ?_) (fun _ => .inr (.inr hreason)) (by simp) hw
  · cases h
  · cases h

/-- The worker looks at the signal. -/
theorem Move.of_markSeen {e : CycleEvent} {p : CyclePhase} (hp : p = .looked ∨ p = .top)
    (hw : s.cycles w ≠ .installed) :
    Move cfg s { s.setCycle w p with signal := s.signal.markSeen w } w e p := by
  have hpast : p.pastFatalCheck = false ∧ p.pastFinishedCheck = false ∧ p.hasLeft = false ∧
      p ≠ .installed := by
    rcases hp with rfl | rfl <;> exact ⟨rfl, rfl, rfl, by simp⟩
  obtain ⟨hfatal, hfinished, hleft, hinstalled⟩ := hpast
  exact ⟨rfl, rfl, rfl, rfl, .refl, .inl, .inr (.inr ⟨rfl, hfatal⟩), .inl rfl, by simp [hfatal],
    by simp [hfinished], by simp [hleft], fun h => absurd h hinstalled, fun h => absurd h hw⟩

/-- The worker gives its lane up, and parks or exits. -/
theorem Move.of_shutdownLane {e : CycleEvent} {p : CyclePhase} {failure : Option DownloadError}
    (h : (s.setCycle w p).shutdownLane w failure = some s')
    (hsilent : failure.isSome = true → s.installsSilently cfg w e = true)
    (hfatal : p.pastFatalCheck = true → (s.cycles w).pastFatalCheck = true)
    (hfinished : p.pastFinishedCheck = true → (s.cycles w).pastFinishedCheck = true)
    (hleft : p.hasLeft = true → (s.cycles w).hasLeft = true)
    (hp : p ≠ .installed) (hw : s.cycles w ≠ .installed) : Move cfg s s' w e p := by
  obtain ⟨hcyc, hdes, hphase, hsig, hcan, hsched, hinst⟩ := shutdownLane_spec h
  refine ⟨hcyc, hdes, hphase, hcan, ?_, ?_, .inl hsig, ?_, fun h => .inl (hfatal h),
    fun h => .inl (hfinished h), fun h => .inl (hleft h), fun h => absurd h hp,
    fun h => absurd h hw⟩
  · rw [ledger, ledger, hsched]
    exact .refl
  · rw [ledger, ledger, hsched]
    exact .inl
  · exact hinst.imp_right fun h => ⟨h.1, .inr (hsilent h.2)⟩

/-- An acquire takes a lease, or finds nothing pending. -/
theorem acquire_move {now : ℕ} (h : s.cycleStep cfg w (.acquire now) = some s') :
    ∃ p, Move cfg s s' w (.acquire now) p := by
  simp only [cycleStep] at h
  split at h
  swap
  · cases h
  rename_i hw
  obtain ⟨job, hjob, rfl⟩ := Option.map_eq_some_iff.mp h
  obtain ⟨hsteps, hcan, hfatal, hfin⟩ := workerStep_effect hjob
  simp only [SegmentedState.currentCall, Option.bind_none, Option.or_none] at hfatal
  split
  · obtain ⟨hcyc, hdes, hcore, hsig⟩ := activate_spec cfg (s.setJob job) w
    have hjob' : ((s.setJob job).activate cfg w).job = job := congrArg CoordinatedJob.job hcore
    have hled : ((s.setJob job).activate cfg w).ledger = job.sched.ledger :=
      congrArg (fun job => job.sched.ledger) hjob'
    refine ⟨.busy, hcyc, hdes, by rw [hcore]; rfl, hjob'.symm ▸ hcan, hled.symm ▸ hsteps, ?_,
      .inl hsig, .inl (hjob'.symm ▸ hfatal),
      by simp [CyclePhase.pastFatalCheck], by simp [CyclePhase.pastFinishedCheck],
      by simp [CyclePhase.hasLeft], by simp, by simp [hw]⟩
    rw [hled]
    exact fun hf => .inl (hfin rfl hf)
  · exact ⟨.empty, rfl, rfl, rfl, hcan, hsteps, fun hf => .inl (hfin rfl hf), .inl rfl,
      .inl hfatal, by simp [hw, CyclePhase.pastFatalCheck],
      by simp [hw, CyclePhase.pastFinishedCheck], by simp [CyclePhase.hasLeft], by simp,
      by simp [hw]⟩

/-- A split takes the tail of another worker's lease and publishes it. -/
theorem split_move {leaseId now : ℕ} (h : s.cycleStep cfg w (.split leaseId now) = some s') :
    ∃ p, Move cfg s s' w (.split leaseId now) p := by
  simp only [cycleStep] at h
  split at h
  swap
  · cases h
  obtain ⟨job, hjob, rfl⟩ := Option.map_eq_some_iff.mp h
  obtain ⟨hsteps, hcan, hfatal, -⟩ := workerStep_effect hjob
  simp only [SegmentedState.currentCall, Option.bind_none, Option.or_none] at hfatal
  obtain ⟨hcyc, hdes, hcore, hsig⟩ := activate_spec cfg (s.setJob job) w
  have hsend : (((s.setJob job).activate cfg w).notifyTransition).signal = s.signal.send := by
    simp only [notifyTransition, hsig]
    rfl
  refine ⟨.busy, hcyc, hdes, ?_, ?_, ?_, fun _ => .inr hsend, .inr (.inl hsend), .inl ?_,
    by simp [CyclePhase.pastFatalCheck], by simp [CyclePhase.pastFinishedCheck],
    by simp [CyclePhase.hasLeft], by simp, fun _ => hsend⟩
  · simp only [notifyTransition, hcore]
    rfl
  · simp only [PoolState.job, notifyTransition, hcore]
    exact hcan
  · simp only [ledger, PoolState.job, notifyTransition, hcore]
    exact hsteps
  · simp only [PoolState.job, notifyTransition, hcore]
    exact hfatal

/-- Nothing to split: the worker parks. -/
theorem noSplit_eq_some {leaseId : Option ℕ} {now : ℕ}
    (h : s.cycleStep cfg w (.noSplit leaseId now) = some s') :
    s.cycles w = .splitting ∧ s' = s.setCycle w .parked := by
  simp only [cycleStep] at h
  split at h
  swap
  · cases h
  rename_i hw
  refine ⟨hw, ?_⟩
  split at h
  · split_ifs at h
    exact (Option.some.inj h).symm
  · split at h
    · cases h
    · split at h
      · exact (Option.some.inj h).symm
      · cases h

/-- **Every event of a worker is a move.** -/
theorem cycleStep_move {e : CycleEvent} (h : s.cycleStep cfg w e = some s') :
    ∃ p, Move cfg s s' w e p := by
  cases e with
  | acquire now => exact acquire_move h
  | split leaseId now => exact split_move h
  | work e => exact work_move h
  | noSplit leaseId now =>
    obtain ⟨hw, rfl⟩ := noSplit_eq_some h
    exact ⟨_, .of_setCycle (by simp [hw, CyclePhase.pastFatalCheck])
      (by simp [hw, CyclePhase.pastFinishedCheck]) (by simp [CyclePhase.hasLeft]) (by simp)
      (by simp [hw])⟩
  | look =>
    simp only [cycleStep] at h
    split at h
    · rename_i hw
      rw [← Option.some.inj h]
      exact ⟨_, .of_markSeen (.inl rfl) (by simp [hw])⟩
    · cases h
  | checkCancelled =>
    simp only [cycleStep] at h
    split at h
    · rename_i hw
      rw [← Option.some.inj h]
      split_ifs with hc
      · exact ⟨_, .of_return (.inl hc) (by simp [hw])⟩
      · exact ⟨_, .of_setCycle (by simp [CyclePhase.pastFatalCheck])
          (by simp [CyclePhase.pastFinishedCheck]) (by simp [CyclePhase.hasLeft]) (by simp)
          (by simp [hw])⟩
    · cases h
  | checkFatal =>
    simp only [cycleStep] at h
    split at h
    · rename_i hw
      rw [← Option.some.inj h]
      split_ifs with hc
      · exact ⟨_, .of_return (.inr (.inl hc)) (by simp [hw])⟩
      · exact ⟨_, .of_setCycle (by simp [hc])
          (by simp [CyclePhase.pastFinishedCheck]) (by simp [CyclePhase.hasLeft]) (by simp)
          (by simp [hw])⟩
    · cases h
  | checkFinished =>
    simp only [cycleStep] at h
    split at h
    · rename_i hw
      rw [← Option.some.inj h]
      split_ifs with hc
      · have hfin := SegmentScheduler.isFinished_iff.mp hc
        exact ⟨_, .of_return (.inr (.inr (.inl hfin))) (by simp [hw])⟩
      · have hfin : ¬ s.ledger.Finished := fun hfin =>
          hc (SegmentScheduler.isFinished_iff.mpr hfin)
        exact ⟨_, .of_setCycle (by simp [hw, CyclePhase.pastFatalCheck])
          (by simp [hfin]) (by simp [CyclePhase.hasLeft]) (by simp) (by simp [hw])⟩
    · cases h
  | checkDesired =>
    simp only [cycleStep] at h
    split at h
    · rename_i hw
      rw [← Option.some.inj h]
      split_ifs <;>
        exact ⟨_, .of_setCycle (by simp [hw, CyclePhase.pastFatalCheck])
          (by simp [hw, CyclePhase.pastFinishedCheck]) (by simp [CyclePhase.hasLeft]) (by simp)
          (by simp [hw])⟩
    · cases h
  | checkActive =>
    simp only [cycleStep] at h
    split at h
    · rename_i hw
      rw [← Option.some.inj h]
      split_ifs with hc
      · exact ⟨_, .of_setCycle (by simp [hw, CyclePhase.pastFatalCheck])
          (by simp [hw, CyclePhase.pastFinishedCheck]) (by simp [CyclePhase.hasLeft]) (by simp)
          (by simp [hw])⟩
      · exact ⟨_, .of_return (.inr (.inr (.inr ⟨rfl, hw, by simpa using hc⟩))) (by simp [hw])⟩
    · cases h
  | wake =>
    simp only [cycleStep] at h
    split at h
    · rename_i hw
      split_ifs at h
      rw [← Option.some.inj h]
      exact ⟨_, .of_markSeen (.inr rfl) (by simp [hw])⟩
    · cases h
  | wakeCancelled =>
    simp only [cycleStep] at h
    split at h
    · rename_i hw
      split_ifs at h with hc
      rw [← Option.some.inj h]
      exact ⟨_, .of_return (.inl hc) (by simp [hw])⟩
    · cases h
  | notify =>
    simp only [cycleStep] at h
    split at h
    · rename_i hw
      rw [← Option.some.inj h]
      exact ⟨.returning, rfl, rfl, rfl, rfl, .refl, .inl, .inr (.inl rfl), .inl rfl,
        by simp [CyclePhase.pastFatalCheck], by simp [CyclePhase.pastFinishedCheck],
        fun _ => .inr (.inl hw), by simp, fun _ => rfl⟩
    · cases h
  | releaseLane failure =>
    simp only [cycleStep] at h
    split at h
    · rename_i hw
      exact ⟨.parked, .of_shutdownLane h id (by simp [hw, CyclePhase.pastFatalCheck])
        (by simp [hw, CyclePhase.pastFinishedCheck]) (by simp [CyclePhase.hasLeft]) (by simp)
        (by simp [hw])⟩
    · cases h
  | closeLane failure =>
    simp only [cycleStep] at h
    split at h
    · rename_i hw
      exact ⟨.exited, .of_shutdownLane h id (by simp [CyclePhase.pastFatalCheck])
        (by simp [CyclePhase.pastFinishedCheck]) (by simp [hw, CyclePhase.hasLeft]) (by simp)
        (by simp [hw])⟩
    · cases h

/-! ### What the coordinator and the user can do -/

/-- A step installs a failure and no notification follows it. -/
def installsUnnotified (cfg : PoolConfig) (s : PoolState) : PoolEvent → Bool
  | .worker w e => s.installsSilently cfg w e
  | .coordinator e => s.core.savesFatally cfg.coordinator e
  | _ => false

/-- The event moves no worker. -/
structure Background (cfg : PoolConfig) (s s' : PoolState) (e : PoolEvent) : Prop where
  cycles : s'.cycles = s.cycles
  desired : s'.desired = s.desired ∨ ∃ n, s'.desired = clamp n cfg.minWorkers cfg.workers
  cancelled : s.job.cancelled = true → s'.job.cancelled = true
  steps : ReflTransGen Ledger.Step s.ledger s'.ledger
  finishes : s'.ledger.Finished → s.ledger.Finished
  signal : s'.signal = s.signal ∨ s'.signal = s.signal.send
  fatal : s'.job.fatal = s.job.fatal ∨
    s'.job.fatal.isSome = true ∧ s.installsUnnotified cfg e = true

/-- The coordinator moves no worker. -/
theorem coordinator_background {e : CoordinatorEvent}
    (h : poolStep hash cfg s (.coordinator e) = some s') :
    Background cfg s s' (.coordinator e) := by
  obtain ⟨core, hcore, hs'⟩ := Option.map_eq_some_iff.mp h
  have hparts : s'.core = core ∧ s'.cycles = s.cycles ∧ s'.desired = s.desired ∧
      (s'.signal = s.signal ∨ s'.signal = s.signal.send) := by
    rw [← hs']
    split
    · exact ⟨rfl, rfl, rfl, .inr rfl⟩
    · exact ⟨rfl, rfl, rfl, .inl rfl⟩
  obtain ⟨hc, hcyc, hdes, hsig⟩ := hparts
  have hjob : s'.job = core.job := congrArg CoordinatedJob.job hc
  rcases CoordinatedJob.coordinatorStep_job hcore with heq | heq | ⟨hfatal, err, heq⟩
  · rw [heq] at hjob
    refine ⟨hcyc, .inl hdes, ?_, ?_, ?_, hsig, .inl ?_⟩ <;> simp only [ledger, hjob]
    · exact id
    · exact .refl
    · exact id
  · rw [heq] at hjob
    refine ⟨hcyc, .inl hdes, ?_, ?_, ?_, hsig, .inl ?_⟩ <;> simp only [ledger, hjob]
    · exact id
    · exact s.core.reconcile_steps cfg.coordinator
    · exact SegmentScheduler.absorbWorkerProgress_finished
    · rfl
  · rw [heq] at hjob
    refine ⟨hcyc, .inl hdes, ?_, ?_, ?_, hsig, .inr ⟨?_, hfatal⟩⟩ <;> simp only [ledger, hjob]
    · exact id
    · exact .refl
    · exact id
    · simp [SegmentedState.installFatal]

/-- **The two kinds of steps**: a worker moves, or something happens in the
background. -/
theorem poolStep_cases {e : PoolEvent} (h : poolStep hash cfg s e = some s') :
    (∃ w ce p, e = .worker w ce ∧ w < cfg.workers ∧ Move cfg s s' w ce p) ∨
      Background cfg s s' e := by
  cases e with
  | worker w ce =>
    simp only [poolStep] at h
    split_ifs at h with hw
    obtain ⟨p, hmove⟩ := cycleStep_move h
    exact .inl ⟨w, ce, p, rfl, hw, hmove⟩
  | coordinator ce => exact .inr (coordinator_background h)
  | setDesired n =>
    rw [← Option.some.inj h]
    exact .inr ⟨rfl, .inr ⟨n, rfl⟩, id, .refl, id, .inr rfl, .inl rfl⟩
  | resume =>
    rw [← Option.some.inj h]
    exact .inr ⟨rfl, .inl rfl, id, .refl, id, .inr rfl, .inl rfl⟩
  | cancel =>
    rw [← Option.some.inj h]
    exact .inr ⟨rfl, .inl rfl, fun _ => rfl, .refl, id, .inl rfl, .inl rfl⟩

/-- What no step takes back. -/
theorem poolStep_keeps {e : PoolEvent} (h : poolStep hash cfg s e = some s') :
    (s.job.cancelled = true → s'.job.cancelled = true) ∧
      (s.job.fatal.isSome = true → s'.job.fatal.isSome = true) ∧
      (s.ledger.Finished → s'.ledger.Finished) := by
  rcases poolStep_cases h with ⟨w, ce, p, -, -, hm⟩ | hb
  · refine ⟨fun hc => hm.cancelled.trans hc, fun hf => ?_, fun hf => hf.steps hm.steps⟩
    rcases hm.fatal with heq | ⟨hsome, -⟩
    · rwa [heq]
    · exact hsome
  · refine ⟨hb.cancelled, fun hf => ?_, fun hf => hf.steps hb.steps⟩
    rcases hb.fatal with heq | ⟨hsome, -⟩
    · rwa [heq]
    · exact hsome

/-! ### Exits -/

/-- The job is over, for the workers. -/
def Over (s : PoolState) : Prop :=
  s.job.cancelled = true ∨ s.job.fatal.isSome = true ∨ s.job.sched.isFinished = true

/-- A worker whose acquire found nothing and which then finds no active lease
meets no range that came back in between. -/
def noRequeueBetween (s : PoolState) : PoolEvent → Prop
  | .worker w .checkActive => s.cycles w = .empty → s.job.sched.hasActive = false →
      s.job.sched.pending.isEmpty = true
  | _ => True

instance decidableNoRequeueBetween (s : PoolState) :
    ∀ e, Decidable (noRequeueBetween s e)
  | .worker w e =>
      match e with
      | .checkActive =>
          inferInstanceAs (Decidable (s.cycles w = .empty → s.job.sched.hasActive = false →
            s.job.sched.pending.isEmpty = true))
      | .look | .checkCancelled | .checkFatal | .checkFinished | .checkDesired
      | .releaseLane _ | .acquire _ | .split _ _ | .noSplit _ _ | .wake | .wakeCancelled
      | .work _ | .notify | .closeLane _ => .isTrue trivial
  | .coordinator _ | .setDesired _ | .resume | .cancel => .isTrue trivial

/-- Workers left only when the job was over, a failure stands behind every
pending notification, and the desired count stays in its bounds. -/
structure Lawful (cfg : PoolConfig) (s : PoolState) : Prop where
  left : ∀ w, (s.cycles w).hasLeft = true → s.Over
  installed : ∀ w, s.cycles w = .installed → s.job.fatal.isSome = true
  desired_ge : cfg.minWorkers ≤ s.desired
  desired_le : s.desired ≤ cfg.workers

theorem lawful_init (cfg : PoolConfig) : Lawful cfg (poolInit cfg) where
  left := by intro w h; cases h
  installed := by intro w h; cases h
  desired_ge := cfg.min_le_initial
  desired_le := cfg.initial_le_max

/-- A job that is over stays so. -/
theorem Over.step (h : s.Over) {e : PoolEvent} (hs : poolStep hash cfg s e = some s') :
    s'.Over := by
  obtain ⟨hcan, hfatal, hfin⟩ := poolStep_keeps hs
  simp only [Over, SegmentScheduler.isFinished_iff] at h ⊢
  exact h.imp hcan (Or.imp hfatal hfin)

/-- A worker that leaves finds the job over, unless its last check was raced. -/
theorem Move.over {e : CycleEvent} {p : CyclePhase} (h : Lawful cfg s)
    (hok : noRequeueBetween s (.worker w e)) (hm : Move cfg s s' w e p)
    (hs : poolStep hash cfg s (.worker w e) = some s') (hp : p.hasLeft = true) : s'.Over := by
  rcases hm.left hp with hl | hi | hc | hf | hfin | ⟨rfl, hempty, hidle⟩
  · exact (h.left w hl).step hs
  · exact .inr (.inl ((poolStep_keeps hs).2.1 (h.installed w hi)))
  · exact .inl (hm.cancelled.trans hc)
  · exact .inr (.inl hf)
  · exact .inr (.inr (SegmentScheduler.isFinished_iff.mpr ((poolStep_keeps hs).2.2 hfin)))
  · -- nothing is active, and nothing came back to pending
    have hpend := hok hempty hidle
    refine Over.step (.inr (.inr ?_)) hs
    simp only [SegmentScheduler.isFinished, SegmentScheduler.hasActive] at hidle ⊢
    simpa [hpend] using hidle

theorem clamp_mem {n lo hi : ℕ} (h : lo ≤ hi) : lo ≤ clamp n lo hi ∧ clamp n lo hi ≤ hi := by
  unfold clamp
  split_ifs <;> omega

/-- **The workers leave lawfully** when no range comes back between the two
looks. -/
theorem Lawful.step (h : Lawful cfg s) {e : PoolEvent} (hok : noRequeueBetween s e)
    (hs : poolStep hash cfg s e = some s') : Lawful cfg s' := by
  have hbounds : cfg.minWorkers ≤ cfg.workers := cfg.min_le_initial.trans cfg.initial_le_max
  rcases poolStep_cases hs with ⟨w, ce, p, rfl, -, hm⟩ | hb
  · refine ⟨fun v hv => ?_, fun v hv => ?_, hm.desired ▸ h.desired_ge, hm.desired ▸ h.desired_le⟩
    · rw [hm.cycles] at hv
      rcases eq_or_ne v w with rfl | hne
      · rw [Function.update_self] at hv
        exact hm.over h hok hs hv
      · rw [Function.update_of_ne hne] at hv
        exact (h.left v hv).step hs
    · rw [hm.cycles] at hv
      rcases eq_or_ne v w with rfl | hne
      · rw [Function.update_self] at hv
        exact hm.installed hv
      · rw [Function.update_of_ne hne] at hv
        exact (poolStep_keeps hs).2.1 (h.installed v hv)
  · refine ⟨fun v hv => ?_, fun v hv => ?_, ?_, ?_⟩
    · rw [hb.cycles] at hv
      exact (h.left v hv).step hs
    · rw [hb.cycles] at hv
      exact (poolStep_keeps hs).2.1 (h.installed v hv)
    · rcases hb.desired with heq | ⟨n, heq⟩ <;> rw [heq]
      · exact h.desired_ge
      · exact (clamp_mem hbounds).1
    · rcases hb.desired with heq | ⟨n, heq⟩ <;> rw [heq]
      · exact h.desired_le
      · exact (clamp_mem hbounds).2

/-- **Workers exit lawfully.**  In every run without a raced exit: a worker has
left only if the job is cancelled or failed or has neither pending ranges nor
active leases; and while work is pending and the job neither failed nor
cancelled, a worker below the desired count is there. -/
theorem workers_exit_lawfully (hash : List UInt8 → String) (cfg : PoolConfig) (s : PoolState)
    (h : Reach (poolStep hash cfg) noRequeueBetween (· = poolInit cfg) s) :
    (∀ w, (s.cycles w).hasLeft = true →
      s.job.cancelled = true ∨ s.job.fatal.isSome = true ∨ s.job.sched.isFinished = true) ∧
    (s.job.sched.pending.isEmpty = false → s.job.fatal.isSome = false →
      s.job.cancelled = false →
      ∃ w, w < s.desired ∧ w < cfg.workers ∧ (s.cycles w).hasLeft = false) := by
  have hlaw : Lawful cfg s := h.invariant (by rintro _ rfl; exact lawful_init cfg)
    fun _ _ _ hs hok hstep => hs.step hok hstep
  refine ⟨hlaw.left, fun hpend hfatal hcan => ?_⟩
  have hmin := cfg.min_pos
  have hge := hlaw.desired_ge
  have hle := hlaw.desired_le
  refine ⟨0, by omega, by omega, ?_⟩
  by_contra hleft
  rcases hlaw.left 0 (by simpa using hleft) with hc | hf | hfin
  · simp [hcan] at hc
  · simp [hfatal] at hf
  · simp [SegmentScheduler.isFinished, hpend] at hfin

/-- Two workers for the last six bytes of eight. -/
def twoWorkers : PoolConfig where
  coordinator :=
    { job :=
        { totalSize := 8
          validators := ⟨some "v1", false, none, some 8⟩
          admitted := [(0, 1)]
          policy := .new 8 8
          retry := ⟨true, true, true, 3⟩
          workers := 2
          pipelined := false }
      durability := .performance
      canSync := true
      identity := "job"
      tempPath := "out.part" }
  minWorkers := 1
  initialDesired := 2
  readyWorkFactor := none
  min_pos := by decide
  min_le_initial := by decide
  initial_le_max := by decide

/-- A worker's checks, up to where it acquires or finds itself not wanted. -/
def upToDesired (w : ℕ) : List PoolEvent :=
  [.worker w .look, .worker w .checkCancelled, .worker w .checkFatal, .worker w .checkFinished,
    .worker w .checkDesired]

/-- Worker 0 finds the lease of worker 1, parks, and worker 1 returns its range. -/
def returnedWhileParked : List PoolEvent :=
  upToDesired 1 ++ [PoolEvent.worker 1 (.acquire 0)] ++ upToDesired 0 ++
    [PoolEvent.worker 0 (.acquire 0), .worker 0 .checkActive, .worker 0 (.noSplit none 0),
      .worker 1 (.work (.requestFault (.server 503))), .worker 1 (.work (.settle 0)),
      .worker 1 (.work (.settle 0)), .setDesired 1]

/-- The parked worker that returned is wanted again. -/
theorem workers_exit_lawfully_parked :
    ∃ s, runEvents (poolStep plainDigest twoWorkers) (poolInit twoWorkers) returnedWhileParked =
        some s ∧
      s.job.sched.pending.ranges = [(2, 7)] ∧
      ∃ w, w < s.desired ∧ w < twoWorkers.workers ∧ (s.cycles w).hasLeft = false := by
  have hend : ((runEvents (poolStep plainDigest twoWorkers) (poolInit twoWorkers)
      returnedWhileParked).map fun s =>
        (s.job.sched.pending.ranges, s.job.sched.pending.isEmpty, s.job.fatal.isSome,
          s.job.cancelled)) = some ([(2, 7)], false, false, false) := by decide
  obtain ⟨s, hrun, hfields⟩ := Option.map_eq_some_iff.mp hend
  simp only [Prod.mk.injEq] at hfields
  obtain ⟨hranges, hpend, hfatal, hcan⟩ := hfields
  have hreach : Reach (poolStep plainDigest twoWorkers) noRequeueBetween
      (· = poolInit twoWorkers) s := .of_run (.start rfl) (by decide) hrun
  exact ⟨s, hrun, hranges, (workers_exit_lawfully _ _ s hreach).2 hpend hfatal hcan⟩

/-- Worker 1 returns its range after worker 0 found nothing to acquire and
before it looks for active leases; then worker 1 is no longer wanted. -/
def returnedBetween : List PoolEvent :=
  upToDesired 1 ++ [PoolEvent.worker 1 (.acquire 0)] ++ upToDesired 0 ++
    [PoolEvent.worker 0 (.acquire 0), .worker 1 (.work (.requestFault (.server 503))),
      .worker 1 (.work (.settle 0)), .worker 1 (.work (.settle 0)), .worker 0 .checkActive,
      .worker 0 (.closeLane none), .worker 1 (.work (.settle 0)), .worker 1 (.work (.settle 0)),
      .setDesired 1] ++
    upToDesired 1 ++ [PoolEvent.worker 1 (.releaseLane none)]

/-- **The only wanted worker has left, and six bytes are pending.** -/
theorem requeue_strands_work :
    ¬ ∀ (hash : List UInt8 → String) (cfg : PoolConfig) (s : PoolState),
      Reach (poolStep hash cfg) (fun _ _ => True) (· = poolInit cfg) s →
      (∀ w, (s.cycles w).hasLeft = true →
        s.job.cancelled = true ∨ s.job.fatal.isSome = true ∨ s.job.sched.isFinished = true) ∧
      (s.job.sched.pending.isEmpty = false → s.job.fatal.isSome = false →
        s.job.cancelled = false →
        ∃ w, w < s.desired ∧ w < cfg.workers ∧ (s.cycles w).hasLeft = false) := by
  intro h
  have hend : ((runEvents (poolStep plainDigest twoWorkers) (poolInit twoWorkers)
      returnedBetween).map fun s =>
        ((s.job.sched.pending.isEmpty, s.job.fatal.isSome, s.job.cancelled),
          s.desired, s.cycles 0)) = some ((false, false, false), 1, .exited) := by decide
  obtain ⟨s, hrun, hfields⟩ := Option.map_eq_some_iff.mp hend
  simp only [Prod.mk.injEq] at hfields
  obtain ⟨⟨hpend, hfatal, hcan⟩, hdesired, hexited⟩ := hfields
  have hreach : Reach (poolStep plainDigest twoWorkers) (fun _ _ => True)
      (· = poolInit twoWorkers) s := .of_run (.start rfl) (by decide) hrun
  obtain ⟨w, hw, -, hstays⟩ := (h _ _ s hreach).2 hpend hfatal hcan
  obtain rfl : w = 0 := by omega
  rw [hexited] at hstays
  cases hstays

/-! ### Parked workers -/

/-- A notification is pending for every worker that has looked at the fatal
flag. -/
def FatalNotified (cfg : PoolConfig) (s : PoolState) : Prop :=
  ∀ w < cfg.workers, (s.cycles w).pastFatalCheck = true → s.signal.changed w = true

/-- A failure that nobody publishes meets no worker that has looked at the
fatal flag and has no notification pending. -/
def noSilentFailure (cfg : PoolConfig) (s : PoolState) (e : PoolEvent) : Prop :=
  s.installsUnnotified cfg e = true → s.job.fatal.isSome = false → s.FatalNotified cfg

instance decidableNoSilentFailure (cfg : PoolConfig) (s : PoolState) (e : PoolEvent) :
    Decidable (noSilentFailure cfg s e) :=
  inferInstanceAs (Decidable (s.installsUnnotified cfg e = true → s.job.fatal.isSome = false →
    ∀ w < cfg.workers, (s.cycles w).pastFatalCheck = true → s.signal.changed w = true))

/-- Once the job failed or finished, a notification is pending for every worker
that looked before; a failing worker has one step left to publish. -/
structure Woken (cfg : PoolConfig) (s : PoolState) : Prop where
  fatal : s.job.fatal.isSome = true →
    s.FatalNotified cfg ∨ ∃ w < cfg.workers, s.cycles w = .installed
  finished : s.ledger.Finished → ∀ w < cfg.workers,
    (s.cycles w).pastFinishedCheck = true → s.signal.changed w = true

theorem woken_init (cfg : PoolConfig) : Woken cfg (poolInit cfg) where
  fatal := by intro h; cases h
  finished := by intro _ w _ h; cases h

theorem pastFatalCheck_of_pastFinishedCheck {p : CyclePhase} (h : p.pastFinishedCheck = true) :
    p.pastFatalCheck = true := by
  cases p <;> first | rfl | cases h

/-- A worker's own look is the only thing that takes its notification, and it
has the checks before it then. -/
theorem Move.changed {e : CycleEvent} {p : CyclePhase} (hm : Move cfg s s' w e p) {v : ℕ}
    (hpast : (s'.cycles v).pastFatalCheck = true) (hv : s.signal.changed v = true) :
    s'.signal.changed v = true := by
  rcases hm.signal with heq | heq | ⟨heq, hp⟩ <;> rw [heq]
  · exact hv
  · exact Watch.changed_send _ _
  · rcases eq_or_ne v w with rfl | hne
    · rw [hm.cycles, Function.update_self, hp] at hpast
      cases hpast
    · rw [Watch.changed_markSeen_of_ne _ hne]
      exact hv

theorem Background.changed {e : PoolEvent} (hb : Background cfg s s' e) {v : ℕ}
    (hv : s.signal.changed v = true) : s'.signal.changed v = true := by
  rcases hb.signal with heq | heq <;> rw [heq]
  · exact hv
  · exact Watch.changed_send _ _

theorem Move.fatalNotified {e : CycleEvent} {p : CyclePhase} (hm : Move cfg s s' w e p)
    (hfatal : s'.job.fatal.isSome = true) (h : s.FatalNotified cfg) : s'.FatalNotified cfg := by
  intro v hv hpast
  refine hm.changed hpast (h v hv ?_)
  rw [hm.cycles] at hpast
  rcases eq_or_ne v w with rfl | hne
  · rw [Function.update_self] at hpast
    -- the flag was read before this step, since it is set after it
    rcases hm.pastFatal hpast with hbefore | hunset
    · exact hbefore
    · rw [hfatal] at hunset
      cases hunset
  · rwa [Function.update_of_ne hne] at hpast

/-- **A cycle moves on without losing a notification.** -/
theorem Move.woken {e : CycleEvent} {p : CyclePhase} (hm : Move cfg s s' w e p)
    (hw : w < cfg.workers) (hok : noSilentFailure cfg s (.worker w e)) (h : Woken cfg s) :
    Woken cfg s' := by
  refine ⟨fun hfatal => ?_, fun hfin v hv hpast => ?_⟩
  · -- published before the step, by this step, or by the step that comes next
    have hbefore : (s.FatalNotified cfg ∨ ∃ v < cfg.workers, s.cycles v = .installed) ∨
        p = .installed := by
      rcases hm.fatal with heq | ⟨-, hp | hsilent⟩
      · exact .inl (h.fatal (heq ▸ hfatal))
      · exact .inr hp
      · rcases hset : s.job.fatal.isSome with - | -
        · exact .inl (.inl (hok hsilent hset))
        · exact .inl (h.fatal hset)
    rcases hbefore with (hall | ⟨v, hv, hinst⟩) | hp
    · exact .inl (hm.fatalNotified hfatal hall)
    · rcases eq_or_ne v w with rfl | hne
      · left
        intro u _ _
        rw [hm.notified hinst]
        exact Watch.changed_send _ _
      · exact .inr ⟨v, hv, by rw [hm.cycles, Function.update_of_ne hne, hinst]⟩
    · exact .inr ⟨w, hw, by rw [hm.cycles, Function.update_self, hp]⟩
  · rcases hm.finishes hfin with hbefore | hsend
    · refine hm.changed (pastFatalCheck_of_pastFinishedCheck hpast) (h.finished hbefore v hv ?_)
      rw [hm.cycles] at hpast
      rcases eq_or_ne v w with rfl | hne
      · rw [Function.update_self] at hpast
        rcases hm.pastFinished hpast with hpast' | hnot
        · exact hpast'
        · exact absurd hfin hnot
      · rwa [Function.update_of_ne hne] at hpast
    · rw [hsend]
      exact Watch.changed_send _ _

theorem Background.woken {e : PoolEvent} (hb : Background cfg s s' e)
    (hok : noSilentFailure cfg s e) (h : Woken cfg s) : Woken cfg s' := by
  refine ⟨fun hfatal => ?_, fun hfin v hv hpast => ?_⟩
  · have hbefore : s.FatalNotified cfg ∨ ∃ v < cfg.workers, s.cycles v = .installed := by
      rcases hb.fatal with heq | ⟨-, hsilent⟩
      · exact h.fatal (heq ▸ hfatal)
      · rcases hset : s.job.fatal.isSome with - | -
        · exact .inl (hok hsilent hset)
        · exact h.fatal hset
    rw [hb.cycles]
    refine hbefore.imp_left fun hall v hv hpast => hb.changed (hall v hv ?_)
    rwa [hb.cycles] at hpast
  · rw [hb.cycles] at hpast
    exact hb.changed (h.finished (hb.finishes hfin) v hv hpast)

/-- **A notification stays pending for every worker that looked before.** -/
theorem Woken.step (h : Woken cfg s) {e : PoolEvent} (hok : noSilentFailure cfg s e)
    (hs : poolStep hash cfg s e = some s') : Woken cfg s' := by
  rcases poolStep_cases hs with ⟨w, ce, p, rfl, hw, hm⟩ | hb
  · exact hm.woken hw hok h
  · exact hb.woken hok h

/-- The job failed or finished, coordinator and workers are gone, and one worker
sleeps on with nothing left to wake it. -/
def Deadlocked (cfg : PoolConfig) (s : PoolState) : Prop :=
  (s.job.fatal.isSome = true ∨ s.job.sched.isFinished = true) ∧
    s.core.phase.hasExited = true ∧
    ∃ w < cfg.workers, s.cycles w = .parked ∧ s.signal.changed w = false ∧
      ∀ v < cfg.workers, v ≠ w → s.cycles v = .exited

/-- The step takes the last worker that was not parked out of its cycle. -/
def RetiresLast (cfg : PoolConfig) (s s' : PoolState) : Prop :=
  ∃ w < cfg.workers, (s.cycles w).hasLeft = false ∧ (s'.cycles w).hasLeft = true ∧
    ∀ v < cfg.workers, v ≠ w → s'.cycles v = .parked ∨ (s'.cycles v).hasLeft = true

/-- Every parked worker is woken, or some worker's next step wakes it. -/
def WakesParked (cfg : PoolConfig) (s : PoolState) : Prop :=
  ∀ w < cfg.workers, s.cycles w = .parked →
    s.job.cancelled = true ∨ s.signal.changed w = true ∨
      ∃ v < cfg.workers, s.cycles v = .installed

theorem Woken.wakesParked (h : Woken cfg s) (hover : s.Over) : s.WakesParked cfg := by
  intro w hw hpark
  rcases hover with hcan | hfatal | hfin
  · exact .inl hcan
  · rcases h.fatal hfatal with hall | hinst
    · exact .inr (.inl (hall w hw (by rw [hpark]; rfl)))
    · exact .inr (.inr hinst)
  · exact .inr (.inl (h.finished (SegmentScheduler.isFinished_iff.mp hfin) w hw
      (by rw [hpark]; rfl)))

theorem Woken.not_deadlocked (h : Woken cfg s) : ¬ s.Deadlocked cfg := by
  rintro ⟨hend, -, w, hw, hpark, hsleeps, hothers⟩
  rcases hend with hfatal | hfin
  · rcases h.fatal hfatal with hall | ⟨v, hv, hinst⟩
    · rw [hall w hw (by rw [hpark]; rfl)] at hsleeps
      cases hsleeps
    · -- nobody is about to publish: the others are gone and this one is parked
      rcases eq_or_ne v w with rfl | hne
      · rw [hpark] at hinst
        cases hinst
      · rw [hothers v hv hne] at hinst
        cases hinst
  · rw [h.finished (SegmentScheduler.isFinished_iff.mp hfin) w hw (by rw [hpark]; rfl)] at hsleeps
    cases hsleeps

/-- **Parked workers are woken.**  In every run without a raced exit and
without a failure that nobody publishes: no worker sleeps on in a job that is
over and that everyone else has left; every step that installs a failure or
retires the last worker that was not parked leaves each parked worker with a
notification or a cancellation to wake it, or a worker whose next step
publishes; and that step reaches everyone. -/
theorem parked_workers_woken (hash : List UInt8 → String) (cfg : PoolConfig) (s : PoolState)
    (h : Reach (poolStep hash cfg) (fun s e => noRequeueBetween s e ∧ noSilentFailure cfg s e)
      (· = poolInit cfg) s) :
    ¬ s.Deadlocked cfg ∧
    (∀ e s', noRequeueBetween s e → noSilentFailure cfg s e → poolStep hash cfg s e = some s' →
      s.job.fatal.isSome = false ∧ s'.job.fatal.isSome = true ∨ RetiresLast cfg s s' →
      s'.WakesParked cfg) ∧
    (∀ w < cfg.workers, s.cycles w = .installed →
      ∃ s', poolStep hash cfg s (.worker w .notify) = some s' ∧
        ∀ v, s'.signal.changed v = true) := by
  have hinv : Lawful cfg s ∧ Woken cfg s := h.invariant (I := fun s => Lawful cfg s ∧ Woken cfg s)
    (by rintro _ rfl; exact ⟨lawful_init cfg, woken_init cfg⟩)
    fun _ _ _ hs hok hstep => ⟨hs.1.step hok.1 hstep, hs.2.step hok.2 hstep⟩
  refine ⟨hinv.2.not_deadlocked, fun e s' hraced hsilent hs hends => ?_, fun w hw hinst => ?_⟩
  · have hlaw := hinv.1.step hraced hs
    refine (hinv.2.step hsilent hs).wakesParked ?_
    rcases hends with ⟨-, hfatal⟩ | ⟨w, -, -, hleft, -⟩
    · exact .inr (.inl hfatal)
    · exact hlaw.left w hleft
  · refine ⟨(s.setCycle w .returning).notifyTransition, ?_, fun v => Watch.changed_send _ _⟩
    simp [poolStep, hw, cycleStep, hinst]

/-- Worker 1 is parked when worker 0 meets a terminal error, and is published
to. -/
def failedWhileParked : List PoolEvent :=
  [PoolEvent.setDesired 1] ++ upToDesired 1 ++ [PoolEvent.worker 1 (.releaseLane none)] ++ upToDesired 0 ++
    [PoolEvent.worker 0 (.acquire 0), .worker 0 (.work (.requestFault (.notFound 404))),
      .worker 0 (.work (.settle 0)), .worker 0 (.work (.settle 0)), .worker 0 (.work (.settle 0)),
      .worker 0 (.work (.settle 0))]

/-- The failure is about to wake the parked worker. -/
theorem parked_workers_woken_failure :
    ∃ s, runEvents (poolStep plainDigest twoWorkers) (poolInit twoWorkers) failedWhileParked =
        some s ∧
      s.job.fatal.isSome = true ∧ s.cycles 1 = .parked ∧ ¬ s.Deadlocked twoWorkers ∧
      ∃ s', poolStep plainDigest twoWorkers s (.worker 0 .notify) = some s' ∧
        s'.signal.changed 1 = true := by
  have hend : ((runEvents (poolStep plainDigest twoWorkers) (poolInit twoWorkers)
      failedWhileParked).map fun s => (s.job.fatal.isSome, s.cycles 0, s.cycles 1)) =
        some (true, .installed, .parked) := by decide
  obtain ⟨s, hrun, hfields⟩ := Option.map_eq_some_iff.mp hend
  simp only [Prod.mk.injEq] at hfields
  obtain ⟨hfatal, hinst, hpark⟩ := hfields
  have hreach : Reach (poolStep plainDigest twoWorkers)
      (fun s e => noRequeueBetween s e ∧ noSilentFailure twoWorkers s e)
      (· = poolInit twoWorkers) s := .of_run (.start rfl) (by decide) hrun
  obtain ⟨hfree, -, hnotify⟩ := parked_workers_woken _ _ s hreach
  obtain ⟨s', hs', hall⟩ := hnotify 0 (by decide) hinst
  exact ⟨s, hrun, hfatal, hpark, hfree, s', hs', hall 1⟩

/-- The first save fails after worker 1 parked; the coordinator exits and worker
0 finds the failure and leaves. -/
def saveFailsWhileParked : List PoolEvent :=
  [PoolEvent.setDesired 1, .coordinator (.begin .first)] ++ upToDesired 1 ++
    [PoolEvent.worker 1 (.releaseLane none), .coordinator .fence,
      .coordinator (.build none none "0" none),
      .coordinator (.stored (some (.checkpoint "disk full"))), .worker 0 .look,
      .worker 0 .checkCancelled, .worker 0 .checkFatal, .worker 0 (.closeLane none)]

/-- **Worker 1 sleeps on, with nobody left to publish.** -/
theorem save_failure_strands_parked :
    ¬ ∀ (hash : List UInt8 → String) (cfg : PoolConfig) (s : PoolState),
      Reach (poolStep hash cfg) (fun _ _ => True) (· = poolInit cfg) s →
      ¬ s.Deadlocked cfg ∧
      (∀ e s', poolStep hash cfg s e = some s' →
        s.job.fatal.isSome = false ∧ s'.job.fatal.isSome = true ∨ RetiresLast cfg s s' →
        s'.WakesParked cfg) := by
  intro h
  have hend : ((runEvents (poolStep plainDigest twoWorkers) (poolInit twoWorkers)
      saveFailsWhileParked).map fun s =>
        ((s.job.fatal.isSome, s.core.phase.hasExited, s.signal.changed 1),
          s.cycles 0, s.cycles 1)) = some ((true, true, false), .exited, .parked) := by decide
  obtain ⟨s, hrun, hfields⟩ := Option.map_eq_some_iff.mp hend
  simp only [Prod.mk.injEq] at hfields
  obtain ⟨⟨hfatal, hcoord, hsleeps⟩, hexited, hpark⟩ := hfields
  have hreach : Reach (poolStep plainDigest twoWorkers) (fun _ _ => True)
      (· = poolInit twoWorkers) s := .of_run (.start rfl) (by decide) hrun
  refine (h _ _ s hreach).1 ⟨.inl hfatal, hcoord, 1, by decide, hpark, hsleeps, fun v hv hne => ?_⟩
  have hv' : v < 2 := hv
  obtain rfl : v = 0 := by omega
  exact hexited

end PoolState

end KDown
