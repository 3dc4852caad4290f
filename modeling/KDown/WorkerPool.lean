/-
KDown/WorkerPool.lean

The workers' loop around the leases (worker_loop and worker_cycle of
job/segmented.rs).

Between two leases a worker looks at the revision signal, checks the cancel
flag, the fatal flag, whether all work is settled and whether it is wanted,
and then acquires, splits, parks or leaves.  Each check is a step of its own,
since the other workers, the coordinator and the user act in between; in
particular "nothing to acquire" and "no active lease" are read under two
separate locks.

What a worker does while it holds a lease is the transfer of `Segmented`, and
the coordinator is the one of `CheckpointCoordinator`; this module adds the
program counter of the loop (`CyclePhase`), the revision signal, the desired
worker count and the writer lanes.  The signal outlives the workers, so the
branch for a closed channel is left out.
-/
import KDown.CheckpointCoordinator
import KDown.WatchSignal

namespace KDown

/-! ### Configuration and state -/

/-- What a pool of workers is started with. -/
structure PoolConfig where
  coordinator : CoordinatorConfig
  minWorkers : ℕ
  initialDesired : ℕ
  /-- Sizing that keeps ready work for about this many leases per worker. -/
  readyWorkFactor : Option ℕ
  min_pos : 1 ≤ minWorkers
  min_le_initial : minWorkers ≤ initialDesired
  initial_le_max : initialDesired ≤ coordinator.job.workers

namespace PoolConfig

/-- The provisioned workers. -/
def workers (cfg : PoolConfig) : ℕ := cfg.coordinator.job.workers

/-- The ready-work divisor for a desired count. -/
def readyWorkDivisorFor (cfg : PoolConfig) (desired : ℕ) : ℕ :=
  match cfg.readyWorkFactor with
  | none => 0
  | some factor => saturatingMul (max factor 1) (max desired 1)

end PoolConfig

/-- Where a worker stands in its loop. -/
inductive CyclePhase
  | top
  /-- The current revision was looked at. -/
  | looked
  | uncancelled
  | unfailed
  | unfinished
  /-- Above the desired count: the lane is released before parking. -/
  | surplus
  | acquiring
  /-- Nothing was there to acquire. -/
  | empty
  | splitting
  | parked
  /-- A lease is held, or its calls remain. -/
  | busy
  /-- A terminal failure was installed; the notification comes next. -/
  | installed
  /-- The cycle was left; the write path is released next. -/
  | returning
  | exited
  deriving DecidableEq, Repr

namespace CyclePhase

/-- The fatal flag was read and no lease taken since. -/
def pastFatalCheck : CyclePhase → Bool
  | .unfailed | .unfinished | .surplus | .acquiring | .empty | .splitting | .parked => true
  | _ => false

/-- The scheduler was seen unfinished and no lease taken since. -/
def pastFinishedCheck : CyclePhase → Bool
  | .unfinished | .surplus | .acquiring | .empty | .splitting | .parked => true
  | _ => false

/-- The worker has left its cycle. -/
def hasLeft : CyclePhase → Bool
  | .returning | .exited => true
  | _ => false

end CyclePhase

/-- The job with its workers' cycles, the signal they wait for, and the lanes. -/
structure PoolState where
  core : CoordinatedJob
  cycles : ℕ → CyclePhase
  signal : Watch ℕ
  desired : ℕ
  /-- Workers that own a blocking writer lane. -/
  lanes : ℕ → Bool

/-- What can happen to a worker in its loop. -/
inductive CycleEvent
  | look
  | checkCancelled
  | checkFatal
  | checkFinished
  | checkDesired
  | releaseLane (failure : Option DownloadError)
  | acquire (now : ℕ)
  | checkActive
  | split (leaseId now : ℕ)
  | noSplit (leaseId : Option ℕ) (now : ℕ)
  | wake
  | wakeCancelled
  | work (e : WorkerEvent)
  | notify
  | closeLane (failure : Option DownloadError)

/-- A worker, the coordinator or the user acts. -/
inductive PoolEvent
  | worker (w : ℕ) (e : CycleEvent)
  | coordinator (e : CoordinatorEvent)
  | setDesired (n : ℕ)
  /-- The user lifts a pause; parked workers are woken. -/
  | resume
  | cancel

/-- Events of a held lease; taking one and leaving are steps of the loop. -/
def WorkerEvent.isTransfer : WorkerEvent → Bool
  | .acquire _ _ | .split _ _ | .exit => false
  | _ => true

/-- The calls after which the scheduler transition is published. -/
def Settle.notifies : Settle → Bool
  | .complete | .fail | .bumpGeneration => true
  | _ => false

namespace PoolState

/-! ### Steps -/

variable (cfg : PoolConfig)

/-- The segmented job. -/
abbrev job (s : PoolState) : SegmentedState := s.core.job

/-- The cycle of the worker moves on. -/
def setCycle (s : PoolState) (w : ℕ) (p : CyclePhase) : PoolState :=
  { s with cycles := Function.update s.cycles w p }

/-- The job is replaced. -/
def setJob (s : PoolState) (job : SegmentedState) : PoolState :=
  { s with core := { s.core with job := job } }

/-- The workers that wait are told of a change. -/
def notifyTransition (s : PoolState) : PoolState := { s with signal := s.signal.send }

/-- Shut a worker's lane down, if it has one; a failure is installed without a
notification. -/
def shutdownLane (s : PoolState) (w : ℕ) (failure : Option DownloadError) : Option PoolState :=
  match s.lanes w, failure with
  | true, none => some { s with lanes := Function.update s.lanes w false }
  | true, some e =>
      some ({ s with lanes := Function.update s.lanes w false }.setJob (s.job.installFatal e))
  | false, none => some s
  | false, some _ => none

/-- A lease was taken: the legacy write path needs a lane. -/
def activate (s : PoolState) (w : ℕ) : PoolState :=
  let s := s.setCycle w .busy
  if cfg.coordinator.job.pipelined then s
  else { s with lanes := Function.update s.lanes w true }

/-- Where the loop goes on after an event of the transfer. -/
def afterWork (s : PoolState) (w : ℕ) (job : SegmentedState) : Option Settle → CyclePhase
  | some (.install _) => .installed
  | some (.decide e) =>
      -- when the retries are used up the cycle returns at once
      if (s.job.installedBy cfg.coordinator.job w (.decide e)).isSome then .returning else .top
  | _ =>
      match job.phases w with
      | .idle => .top
      | _ => .busy

/-- One event of a worker's loop. -/
def cycleStep (s : PoolState) (w : ℕ) : CycleEvent → Option PoolState
  | .look =>
      match s.cycles w with
      | .top => some { s.setCycle w .looked with signal := s.signal.markSeen w }
      | _ => none
  | .checkCancelled =>
      match s.cycles w with
      | .looked => some (s.setCycle w (if s.job.cancelled then .returning else .uncancelled))
      | _ => none
  | .checkFatal =>
      match s.cycles w with
      | .uncancelled => some (s.setCycle w (if s.job.fatal.isSome then .returning else .unfailed))
      | _ => none
  | .checkFinished =>
      match s.cycles w with
      | .unfailed => some (s.setCycle w (if s.job.sched.isFinished then .returning else .unfinished))
      | _ => none
  | .checkDesired =>
      match s.cycles w with
      | .unfinished => some (s.setCycle w (if s.desired ≤ w then .surplus else .acquiring))
      | _ => none
  | .releaseLane failure =>
      match s.cycles w with
      | .surplus => (s.setCycle w .parked).shutdownLane w failure
      | _ => none
  | .acquire now =>
      match s.cycles w with
      | .acquiring =>
          (s.job.workerStep cfg.coordinator.job w
            (.acquire (cfg.readyWorkDivisorFor s.desired) now)).map fun job =>
              match job.phases w with
              | .holding _ => (s.setJob job).activate cfg w
              | _ => (s.setJob job).setCycle w .empty
      | _ => none
  | .checkActive =>
      match s.cycles w with
      -- a lock of its own: the scheduler may have changed since the acquire
      | .empty => some (s.setCycle w (if s.job.sched.hasActive then .splitting else .returning))
      | _ => none
  | .split leaseId now =>
      match s.cycles w with
      | .splitting =>
          (s.job.workerStep cfg.coordinator.job w (.split leaseId now)).map fun job =>
            ((s.setJob job).activate cfg w).notifyTransition
      | _ => none
  | .noSplit leaseId now =>
      match s.cycles w with
      | .splitting =>
          let threshold := s.job.sched.policy.splitThreshold
          let largest := s.job.sched.largestSplittable threshold
          match leaseId with
          | none => if largest.isEmpty then some (s.setCycle w .parked) else none
          | some id =>
              match largest.find? fun b => b.id = id with
              | none => none
              | some b =>
                  match s.job.sched.splitTail b.id b.generation threshold
                      (s.job.cellReceivedThrough cfg.workers b.id) now with
                  | none => some (s.setCycle w .parked)
                  | some _ => none
      | _ => none
  | .wake =>
      match s.cycles w with
      | .parked =>
          if s.signal.changed w then
            some { s.setCycle w .top with signal := s.signal.markSeen w }
          else none
      | _ => none
  | .wakeCancelled =>
      match s.cycles w with
      | .parked => if s.job.cancelled then some (s.setCycle w .returning) else none
      | _ => none
  | .work e =>
      match s.cycles w with
      | .busy =>
          if e.isTransfer then
            (s.job.workerStep cfg.coordinator.job w e).map fun job =>
              let call := s.job.currentCall w e
              let s' := (s.setJob job).setCycle w (s.afterWork cfg w job call)
              if call.any Settle.notifies then s'.notifyTransition
              -- the body's wait for a chunk consumes revisions too
              else match e with
                | .refresh => { s' with signal := s.signal.markSeen w }
                | _ => s'
          else none
      | _ => none
  | .notify =>
      match s.cycles w with
      | .installed => some ((s.setCycle w .returning).notifyTransition)
      | _ => none
  | .closeLane failure =>
      match s.cycles w with
      | .returning => (s.setCycle w .exited).shutdownLane w failure
      | _ => none

end PoolState

/-- One event of the pool. -/
def poolStep (hash : List UInt8 → String) (cfg : PoolConfig) (s : PoolState) :
    PoolEvent → Option PoolState
  | .worker w e => if w < cfg.workers then s.cycleStep cfg w e else none
  | .coordinator e =>
      (s.core.coordinatorStep hash cfg.coordinator e).map fun core =>
        match e with
        -- every save attempt publishes its reconciliation
        | .begin _ => { s with core := core }.notifyTransition
        | _ => { s with core := core }
  | .setDesired n =>
      some { s with desired := clamp n cfg.minWorkers cfg.workers }.notifyTransition
  | .resume => some s.notifyTransition
  | .cancel => some (s.setJob { s.job with cancelled := true })

/-- The pool at its start. -/
def poolInit (cfg : PoolConfig) : PoolState where
  core := coordinatedInit cfg.coordinator
  cycles := fun _ => .top
  signal := .new
  desired := cfg.initialDesired
  lanes := fun _ => false

end KDown
