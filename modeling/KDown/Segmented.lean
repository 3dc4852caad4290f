/-
KDown/Segmented.lean

The segmented job: workers, leases and the bytes on disk (job/segmented.rs).

Several workers share one scheduler.  A worker takes a lease (or splits one),
requests the rest of its range, consumes the accepted body chunk by chunk
through one of two write paths, and settles the lease with the scheduler.
Between two awaits anything may happen elsewhere, so the job is a transition
system whose events are the atomic pieces of `worker_cycle`, `transfer_lease`,
`consume_legacy_body` and `consume_pipelined_body`, in any interleaving.

* The worker's ending after a body is the list of its remaining scheduler calls
  (`Settle`), performed one event at a time.
* The server is an oracle: a status with headers, chunk lengths, a clean end or
  a fault.  Only heads that `transfer` accepts start a body.
* `written` holds the bytes whose positional write succeeded.

The checks of the cancel and fatal flags at the top of the loops may be
overtaken by other tasks, so events stay enabled when a flag is set; `abort`
and `exit` are the ways out.  Rate limits, memory reservations, backoff and
credential retries delay a worker or re-issue the same request and change
nothing here.
-/
import KDown.SchedulerPartition
import KDown.RangeResponse
import KDown.WriteFrontier
import KDown.Runs

namespace KDown

/-! ### Configuration and state -/

/-- What a segmented job is started with. -/
structure SegmentedConfig where
  totalSize : ℕ
  validators : ResourceValidators
  /-- Resume ranges admitted before the job starts. -/
  admitted : List ByteRange
  policy : SchedulerPolicy
  retry : RetryPolicy
  workers : ℕ
  /-- Shared write executor instead of one blocking lane per worker. -/
  pipelined : Bool

/-- How a transfer attempt ends for the worker loop. -/
inductive WorkerError
  | retryable (error : DownloadError)
  | fatal (error : DownloadError)
  | generationChanged (error : DownloadError)

/-- Map a failure onto the worker's policy. -/
def workerErrorFromFailure (retry : RetryPolicy) (error : DownloadError) : WorkerError :=
  match error with
  | .resourceChanged detail => .generationChanged (.resourceChanged detail)
  | error => if retry.retryable error then .retryable error else .fatal error

/-- An accepted response whose body is being consumed. -/
structure Transfer where
  /-- The worker's copy of the lease, as it was acquired. -/
  lease : SegmentLease
  /-- The requested range, which limits the body. -/
  requested : ByteRange
  validatedStart : ℕ
  validatedEnd : ℕ
  /-- Stop boundary; shrinks when the lease is split. -/
  effectiveEnd : ℕ
  inRangeOffset : ℕ
  /-- Bytes the body limit has let through. -/
  delivered : ℕ

namespace Transfer

/-- The offset of the next byte. -/
def absOffset (t : Transfer) : ℕ := t.validatedStart + t.inRangeOffset

/-- How many bytes the response may have. -/
def acceptedLen (t : Transfer) : ℕ := t.validatedEnd - t.validatedStart + 1

/-- How much of a chunk the worker owns. -/
def ownedLen (t : Transfer) (len : ℕ) : ℕ :=
  if t.effectiveEnd < t.absOffset then 0 else min (t.effectiveEnd + 1 - t.absOffset) len

end Transfer

/-- A call that remains before a worker is done with its lease. -/
inductive Settle
  | reconcile
  | reportProgress (through : ℕ)
  | clearCell
  | complete
  | fail
  | bumpGeneration
  /-- Try again unless the attempts are used up. -/
  | decide (error : DownloadError)
  /-- Install the terminal failure and leave the loop. -/
  | install (error : DownloadError)

/-- Where a worker stands. -/
inductive Phase
  | idle
  /-- A lease is held and its range is being requested. -/
  | holding (lease : SegmentLease)
  /-- A response was accepted; the stop boundary was not read yet. -/
  | opening (t : Transfer)
  | reading (t : Transfer)
  /-- The lane writes the owned part of a chunk. -/
  | writing (t : Transfer) (owned : ℕ) (truncated : Bool)
  | pipelining (t : Transfer) (f : LeaseFrontier)
  /-- Outstanding writes settle before a retry (`some`) or the end (`none`). -/
  | draining (t : Transfer) (f : LeaseFrontier) (retry : Option DownloadError)
  /-- The body was consumed; the bytes before `through` were written. -/
  | closing (t : Transfer) (through : ℕ)
  | settling (lease : SegmentLease) (todo : List Settle)
  | exited

/-- A positional write handed to the shared executor. -/
structure WriteSubmission where
  leaseId : ℕ
  generation : ℕ
  offset : ℕ
  len : ℕ

/-- How the executor answers a write. -/
inductive WriteOutcome
  | completed
  | failed (error : DownloadError)
  | discarded

/-- The write succeeded. -/
def WriteOutcome.isCompleted : WriteOutcome → Bool
  | .completed => true
  | _ => false

/-- The answer to a submitted write. -/
structure WriteCompletion where
  submission : WriteSubmission
  outcome : WriteOutcome

/-- The job, with its workers and the writes they have submitted. -/
structure SegmentedState where
  sched : SegmentScheduler
  /-- Published progress, one cell per worker. -/
  cells : ℕ → Option LeaseRecord
  phases : ℕ → Phase
  attempts : ℕ → ℕ
  queued : ℕ → List WriteSubmission
  completions : ℕ → List WriteCompletion
  /-- Bytes whose write succeeded. -/
  written : IntervalSet
  fatal : Option DownloadError
  cancelled : Bool

namespace SegmentedState

/-- The worker moves on. -/
def setPhase (s : SegmentedState) (w : ℕ) (p : Phase) : SegmentedState :=
  { s with phases := Function.update s.phases w p }

/-- The worker publishes its progress. -/
def setCell (s : SegmentedState) (w : ℕ) (c : Option LeaseRecord) : SegmentedState :=
  { s with cells := Function.update s.cells w c }

/-- First failure wins. -/
def installFatal (s : SegmentedState) (e : DownloadError) : SegmentedState :=
  { s with fatal := s.fatal.or (some e) }

/-- The receipt high-watermark published for a lease. -/
def cellReceivedThrough (s : SegmentedState) (workers leaseId : ℕ) : ℕ :=
  (((List.range workers).filterMap s.cells).filter fun r => r.leaseId = leaseId).foldl
    (fun m r => max m r.receivedThrough) 0

/-- Where a request of a held lease starts. -/
def startFrom (s : SegmentedState) (w : ℕ) (lease : SegmentLease) : ℕ :=
  match s.cells w with
  -- a record of an earlier lease says nothing about this one
  | some r => if r.leaseId = lease.id then max r.writtenThrough lease.nextOffset
      else lease.nextOffset
  | none => lease.nextOffset

/-- Reconcile every worker's cell into the scheduler. -/
def reconcile (s : SegmentedState) (workers : ℕ) : SegmentedState :=
  { s with
    sched := (s.sched.absorbWorkerProgress ((List.range workers).map s.cells)).2 }

end SegmentedState

/-! ### Worker steps -/

/-- What can happen to a worker. -/
inductive WorkerEvent
  | acquire (readyDivisor now : ℕ)
  | split (leaseId now : ℕ)
  | exit
  | respond (status : ℕ) (headers : Headers)
  | requestFault (error : DownloadError)
  | refresh
  | receive (len : ℕ)
  | writeAck (failure : Option DownloadError)
  | execute (index : ℕ) (outcome : WriteOutcome)
  | settleCompletion
  | endOfBody
  | bodyFault (error : DownloadError)
  | drained
  | abort
  | finish
  | settle (now : ℕ)

/-- The calls a worker makes after each kind of ending. -/
def successEnding (reportThrough : ℕ) : List Settle :=
  [.reconcile, .reportProgress reportThrough, .clearCell, .reconcile, .complete, .clearCell]

/-- What is settled of a lease after an error. -/
def errorEnding : WorkerError → List Settle
  | .retryable e => [.reconcile, .fail, .clearCell, .decide e]
  | .fatal e => [.reconcile, .fail, .clearCell, .install e]
  -- the lease is not failed: the new generation gives all of them back
  | .generationChanged e => [.bumpGeneration, .install e]

namespace SegmentedState

variable (cfg : SegmentedConfig)

/-- Perform one of the remaining calls. -/
def performSettle (s : SegmentedState) (w : ℕ) (lease : SegmentLease) (now : ℕ) :
    Settle → SegmentedState
  | .reconcile => s.reconcile cfg.workers
  | .reportProgress through =>
      { s with sched := (s.sched.reportProgress lease.id lease.generation through).2 }
  | .clearCell => s.setCell w none
  | .complete =>
      { s with
        sched := (s.sched.complete lease.id lease.generation now).2
        attempts := Function.update s.attempts w 0 }
  | .fail => { s with sched := (s.sched.fail lease.id lease.generation now).2 }
  | .bumpGeneration => { s with sched := s.sched.bumpGeneration }
  | .decide e =>
      match cfg.retry.decide e (s.attempts w) with
      | some next => { s with attempts := Function.update s.attempts w next }
      | none => s.installFatal (.retryExhausted e)
  | .install e => s.installFatal e

/-- Where the worker goes when its last call is done. -/
def afterSettle (s : SegmentedState) (w : ℕ) : Settle → Phase
  | .install _ => .exited
  | .decide e => if (cfg.retry.decide e (s.attempts w)).isSome then .idle else .exited
  | _ => .idle

/-- Judge a response head for a held lease. -/
def respond (s : SegmentedState) (w : ℕ) (lease : SegmentLease) (status : ℕ)
    (headers : Headers) : SegmentedState :=
  -- the end is the one of the worker's copy, not the live one
  let range := (s.startFrom w lease, lease.stop)
  match transfer (.range ⟨range, some cfg.totalSize, some cfg.validators, .invalidRange⟩)
      status headers with
  | .ok response =>
      s.setPhase w (.opening
        { lease := lease, requested := range, validatedStart := response.start,
          validatedEnd := response.stop, effectiveEnd := response.stop, inRangeOffset := 0,
          delivered := 0 })
  | .error e => s.setPhase w (.settling lease (errorEnding (workerErrorFromFailure cfg.retry e)))

/-- The stop boundary after reading the lease's live end. -/
def refreshed (s : SegmentedState) (t : Transfer) : Transfer :=
  match s.sched.leaseEnd t.lease.id t.lease.generation with
  | some stop => { t with effectiveEnd := min t.effectiveEnd stop }
  -- a lease that is gone keeps the old boundary
  | none => t

/-- A body fault on either write path.  The pipelined path settles its
outstanding writes before a retry. -/
def bodyFault (s : SegmentedState) (w : ℕ) (e : DownloadError) : Option SegmentedState :=
  match s.phases w with
  | .reading t =>
      some (s.setPhase w (.settling t.lease (errorEnding (workerErrorFromFailure cfg.retry e))))
  | .pipelining t f =>
      match workerErrorFromFailure cfg.retry e with
      | .retryable e => some (s.setPhase w (.draining t f (some e)))
      | other => some (s.setPhase w (.settling t.lease (errorEnding other)))
  | _ => none

/-- The body limit's refusal of a chunk that exceeds the requested range. -/
def rangeOverrunError (r : ByteRange) : DownloadError :=
  .invalidRangeResponse s!"response body exceeds accepted range [{r.1}, {r.2}]"

/-- A chunk arrives. -/
def receive (s : SegmentedState) (w len : ℕ) : Option SegmentedState :=
  match s.phases w with
  | .reading t =>
      if !limitAccepts (some t.requested) t.delivered len then
        s.bodyFault cfg w (rangeOverrunError t.requested)
      else
        let owned := t.ownedLen len
        let t' := { t with delivered := t.delivered + len }
        -- nothing owned is taken for the end: the boundary was reached, or the chunk is empty
        if owned = 0 then some (s.setPhase w (.closing t' t'.absOffset))
        else some (s.setPhase w (.writing t' owned (owned < len)))
  | .pipelining t f =>
      if !limitAccepts (some t.requested) t.delivered len then
        s.bodyFault cfg w (rangeOverrunError t.requested)
      else
        let owned := t.ownedLen len
        let t' := { t with delivered := t.delivered + len }
        if owned = 0 then some (s.setPhase w (.draining t' f none))
        else
          let f' := (f.recordReceived t.absOffset owned).recordSubmission t.absOffset owned
          let submission : WriteSubmission :=
            ⟨t.lease.id, t.lease.generation, t.absOffset, owned⟩
          let s := { s with
            queued := Function.update s.queued w (s.queued w ++ [submission]) }
          let t' := { t' with inRangeOffset := t.inRangeOffset + owned }
          some (s.setPhase w (if owned < len then .draining t' f' none else .pipelining t' f'))
  | _ => none

/-- The lane's answer to the write of the legacy path. -/
def writeAck (s : SegmentedState) (w : ℕ) (failure : Option DownloadError) :
    Option SegmentedState :=
  match s.phases w with
  | .writing t owned truncated =>
      match failure with
      | some e => some (s.setPhase w (.settling t.lease (errorEnding (.fatal e))))
      | none =>
          let t' := { t with inRangeOffset := t.inRangeOffset + owned }
          let s := { s with written := s.written.insert t.absOffset (t.absOffset + owned - 1) }
          let s := s.setCell w (some
            { leaseId := t.lease.id, generation := t.lease.generation,
              leaseStart := t.lease.start, writtenThrough := t'.absOffset,
              receivedThrough := t'.absOffset })
          some (s.setPhase w (if truncated then .closing t' t'.absOffset else .reading t'))
  | _ => none

/-- The executor performs or discards one queued write. -/
def execute (s : SegmentedState) (w index : ℕ) (outcome : WriteOutcome) :
    Option SegmentedState :=
  match (s.queued w)[index]? with
  | none => none
  | some sub =>
      some { s with
        queued := Function.update s.queued w ((s.queued w).eraseIdx index)
        completions := Function.update s.completions w (s.completions w ++ [⟨sub, outcome⟩])
        written :=
          if outcome.isCompleted then s.written.insert sub.offset (sub.offset + sub.len - 1)
          else s.written }

/-- Fold one completion into the frontier and publish what it acknowledges. -/
def settleCompletion (s : SegmentedState) (w : ℕ) (t : Transfer) (f : LeaseFrontier)
    (back : LeaseFrontier → Phase) : Option SegmentedState :=
  match s.completions w with
  | [] => none
  | c :: rest =>
      let s := { s with completions := Function.update s.completions w rest }
      -- completions of other leases come through the same channel
      let r := f.recordCompletion c.submission.leaseId c.submission.generation
        c.submission.offset c.submission.len c.outcome.isCompleted
      match r.1 with
      | .acknowledged through =>
          let s := s.setCell w (some
            { leaseId := f.leaseId, generation := f.generation, leaseStart := f.start,
              writtenThrough := through, receivedThrough := f.receivedHighWater })
          some (s.setPhase w (back r.2))
      | .failed =>
          let error := match c.outcome with
            | .failed error => error
            | _ => .sinkWrite "write was discarded before execution"
          some (s.setPhase w (.settling t.lease (errorEnding (.fatal error))))
      | .staleGeneration => some (s.setPhase w (back r.2))

/-- Outstanding writes have settled: retry, or check the frontier and close. -/
def drained (s : SegmentedState) (w : ℕ) (t : Transfer) (f : LeaseFrontier)
    (retry : Option DownloadError) : Option SegmentedState :=
  if f.hasOutstanding then none
  else
    match retry with
    | some e => some (s.setPhase w (.settling t.lease (errorEnding (.retryable e))))
    | none =>
        -- compared with the stop boundary, not with the end of the lease
        if f.acknowledgedThrough ≠ t.effectiveEnd + 1 then
          some (s.setPhase w (.settling t.lease (errorEnding (.fatal
            (.sinkWrite "write pipeline settled below the validated range")))))
        else some (s.setPhase w (.closing t f.acknowledgedThrough))

/-- One event of one worker. -/
def workerStep (s : SegmentedState) (w : ℕ) : WorkerEvent → Option SegmentedState
  | .acquire readyDivisor now =>
      match s.phases w with
      | .idle =>
          let sched := s.sched.setReadyWorkDivisor readyDivisor
          match sched.acquire now with
          | some (lease, sched') => some ({ s with sched := sched' }.setPhase w (.holding lease))
          | none => some { s with sched := sched }
      | _ => none
  | .split leaseId now =>
      match s.phases w with
      | .idle =>
          let threshold := s.sched.policy.splitThreshold
          match (s.sched.largestSplittable threshold).find? fun b => b.id = leaseId with
          | none => none
          | some b =>
              match s.sched.splitTail b.id b.generation threshold
                  (s.cellReceivedThrough cfg.workers b.id) now with
              | some (lease, sched') =>
                  some ({ s with sched := sched' }.setPhase w (.holding lease))
              | none => none
      | _ => none
  | .exit =>
      match s.phases w with
      | .idle =>
          if s.cancelled || s.fatal.isSome || s.sched.isFinished || !s.sched.hasActive then
            some (s.setPhase w .exited)
          else none
      | _ => none
  | .respond status headers =>
      match s.phases w with
      | .holding lease => some (s.respond cfg w lease status headers)
      | _ => none
  | .requestFault e =>
      match s.phases w with
      | .holding lease =>
          some (s.setPhase w
            (.settling lease (errorEnding (workerErrorFromFailure cfg.retry e))))
      | _ => none
  | .refresh =>
      match s.phases w with
      | .opening t =>
          let t' := s.refreshed t
          some (s.setPhase w
            (if cfg.pipelined then
              .pipelining t' (.new t.lease.id t.lease.generation t.validatedStart t.validatedEnd)
            else .reading t'))
      | .reading t => some (s.setPhase w (.reading (s.refreshed t)))
      | .pipelining t f => some (s.setPhase w (.pipelining (s.refreshed t) f))
      | _ => none
  | .receive len => s.receive cfg w len
  | .writeAck failure => s.writeAck w failure
  | .execute index outcome => s.execute w index outcome
  | .settleCompletion =>
      match s.phases w with
      | .pipelining t f => s.settleCompletion w t f (.pipelining t)
      | .draining t f retry => s.settleCompletion w t f (.draining t · retry)
      | _ => none
  | .endOfBody =>
      match s.phases w with
      | .reading t => some (s.setPhase w (.closing t t.absOffset))
      | .pipelining t f => some (s.setPhase w (.draining t f none))
      | _ => none
  | .bodyFault e => s.bodyFault cfg w e
  | .drained =>
      match s.phases w with
      | .draining t f retry => s.drained w t f retry
      | _ => none
  | .abort =>
      if s.cancelled || s.fatal.isSome then
        match s.phases w with
        | .reading t | .pipelining t _ | .draining t _ _ =>
            some (s.setPhase w (.settling t.lease (errorEnding (.fatal .cancelled))))
        | _ => none
      else none
  | .finish =>
      match s.phases w with
      | .closing t _ =>
          some (s.setPhase w (.settling t.lease
            -- what is reported is the accepted length, not what was written
            (successEnding (t.validatedStart + t.acceptedLen))))
      | _ => none
  | .settle now =>
      match s.phases w with
      | .settling lease (call :: todo) =>
          some ((s.performSettle cfg w lease now call).setPhase w
            (if todo.isEmpty then s.afterSettle cfg w call else .settling lease todo))
      | _ => none

end SegmentedState

/-- An event of the job: one worker's, the coordinator's reconciliation, or a
cancellation. -/
inductive SegmentedEvent
  | worker (w : ℕ) (e : WorkerEvent)
  | reconcile
  | cancel

/-- One event. -/
def segmentedStep (cfg : SegmentedConfig) (s : SegmentedState) :
    SegmentedEvent → Option SegmentedState
  | .worker w e => if w < cfg.workers then s.workerStep cfg w e else none
  | .reconcile => some (s.reconcile cfg.workers)
  | .cancel => some { s with cancelled := true }

/-- The job at its start. -/
def segmentedInit (cfg : SegmentedConfig) : SegmentedState where
  sched := .initialized cfg.totalSize cfg.admitted cfg.policy
  cells := fun _ => none
  phases := fun _ => .idle
  attempts := fun _ => 0
  queued := fun _ => []
  completions := fun _ => []
  written := .new
  fatal := none
  cancelled := false

/-! ### What an event does to the scheduler -/

namespace SegmentedState

variable (cfg : SegmentedConfig)

/-- The scheduler calls behind one of the remaining calls of a worker. -/
def settleOps (s : SegmentedState) (lease : SegmentLease) (now : ℕ) : Settle → List SchedulerOp
  | .reconcile => [.absorbWorkerProgress ((List.range cfg.workers).map s.cells)]
  | .reportProgress through => [.reportProgress lease.id lease.generation through]
  | .complete => [.complete lease.id lease.generation now]
  | .fail => [.fail lease.id lease.generation now]
  | .bumpGeneration => [.bumpGeneration]
  | _ => []

/-- The remaining call that an event performs. -/
def currentCall (s : SegmentedState) (w : ℕ) : WorkerEvent → Option Settle
  | .settle _ =>
      match s.phases w with
      | .settling _ (call :: _) => some call
      | _ => none
  | _ => none

/-- The terminal failure that one of the remaining calls installs. -/
def installedBy (s : SegmentedState) (w : ℕ) : Settle → Option DownloadError
  | .decide e => if (cfg.retry.decide e (s.attempts w)).isSome then none else some (.retryExhausted e)
  | .install e => some e
  | _ => none

/-- The scheduler calls an event of a worker makes. -/
def schedulerOps (s : SegmentedState) (w : ℕ) : WorkerEvent → List SchedulerOp
  | .acquire readyDivisor now => [.setReadyWorkDivisor readyDivisor, .acquire now]
  | .split leaseId now =>
      match (s.sched.largestSplittable s.sched.policy.splitThreshold).find?
          fun b => b.id = leaseId with
      | some b =>
          [.splitTail b.id b.generation s.sched.policy.splitThreshold
            (s.cellReceivedThrough cfg.workers b.id) now]
      | none => []
  | .settle now =>
      match s.phases w with
      | .settling lease (call :: _) => s.settleOps cfg lease now call
      | _ => []
  | _ => []

theorem performSettle_sched (s : SegmentedState) (w : ℕ) (lease : SegmentLease) (now : ℕ)
    (call : Settle) :
    (s.performSettle cfg w lease now call).sched =
      (s.sched.run (s.settleOps cfg lease now call)).1 := by
  cases call with
  | decide e =>
    simp only [performSettle]
    rcases cfg.retry.decide e (s.attempts w) with - | next <;> rfl
  | _ => rfl

theorem performSettle_fatal (s : SegmentedState) (w : ℕ) (lease : SegmentLease) (now : ℕ)
    (call : Settle) :
    (s.performSettle cfg w lease now call).fatal = s.fatal.or (s.installedBy cfg w call) ∧
      (s.performSettle cfg w lease now call).cancelled = s.cancelled := by
  cases call with
  | decide e =>
    simp only [performSettle, installedBy]
    rcases cfg.retry.decide e (s.attempts w) with - | next
    · exact ⟨rfl, rfl⟩
    · simp
  | install e => exact ⟨rfl, rfl⟩
  | _ => simp [performSettle, installedBy, reconcile, setCell]

theorem performSettle_phases (s : SegmentedState) (w : ℕ) (lease : SegmentLease) (now : ℕ)
    (call : Settle) : (s.performSettle cfg w lease now call).phases = s.phases := by
  cases call with
  | decide e => simp only [performSettle]; split <;> rfl
  | _ => rfl

/-- The scheduler and both flags are as they were. -/
structure Keeps (s s' : SegmentedState) : Prop where
  sched : s'.sched = s.sched
  fatal : s'.fatal = s.fatal
  cancelled : s'.cancelled = s.cancelled

theorem Keeps.of_setPhase {s s' : SegmentedState} {w : ℕ} {p : Phase}
    (h : some (s.setPhase w p) = some s') : Keeps s s' := by
  rw [← Option.some.inj h]
  exact ⟨rfl, rfl, rfl⟩

theorem bodyFault_keeps {s s' : SegmentedState} {w : ℕ} {e : DownloadError}
    (h : s.bodyFault cfg w e = some s') : Keeps s s' := by
  unfold bodyFault at h
  split at h
  · exact .of_setPhase h
  · split at h
    · exact .of_setPhase h
    · exact .of_setPhase h
  · cases h

theorem receive_keeps {s s' : SegmentedState} {w len : ℕ}
    (h : s.receive cfg w len = some s') : Keeps s s' := by
  unfold receive at h
  split at h
  · simp only at h
    split_ifs at h
    · exact bodyFault_keeps cfg h
    · exact .of_setPhase h
    · exact .of_setPhase h
  · simp only at h
    split_ifs at h
    · exact bodyFault_keeps cfg h
    · exact .of_setPhase h
    · rw [← Option.some.inj h]; exact ⟨rfl, rfl, rfl⟩
    · rw [← Option.some.inj h]; exact ⟨rfl, rfl, rfl⟩
  · cases h

theorem writeAck_keeps {s s' : SegmentedState} {w : ℕ} {failure : Option DownloadError}
    (h : s.writeAck w failure = some s') : Keeps s s' := by
  unfold writeAck at h
  split at h
  · split at h <;> rw [← Option.some.inj h] <;> exact ⟨rfl, rfl, rfl⟩
  · cases h

theorem settleCompletion_keeps {s s' : SegmentedState} {w : ℕ} {t : Transfer}
    {f : LeaseFrontier} {back : LeaseFrontier → Phase}
    (h : s.settleCompletion w t f back = some s') : Keeps s s' := by
  unfold settleCompletion at h
  split at h
  · cases h
  · simp only at h
    split at h <;> rw [← Option.some.inj h] <;> exact ⟨rfl, rfl, rfl⟩

theorem drained_keeps {s s' : SegmentedState} {w : ℕ} {t : Transfer} {f : LeaseFrontier}
    {retry : Option DownloadError} (h : s.drained w t f retry = some s') : Keeps s s' := by
  unfold drained at h
  split at h
  · cases h
  rcases retry with - | e
  · simp only at h
    split_ifs at h
    · exact .of_setPhase h
    · exact .of_setPhase h
  · exact .of_setPhase h

/-- What an event of a worker does to the scheduler and the flags. -/
structure Frame (s s' : SegmentedState) (w : ℕ) (e : WorkerEvent) : Prop where
  sched : s'.sched = (s.sched.run (s.schedulerOps cfg w e)).1
  fatal : s'.fatal = s.fatal.or ((s.currentCall w e).bind (s.installedBy cfg w))
  cancelled : s'.cancelled = s.cancelled

/-- An event that makes no call keeps scheduler and flags. -/
theorem Keeps.frame {s s' : SegmentedState} {w : ℕ} {e : WorkerEvent} (h : Keeps s s')
    (hops : s.schedulerOps cfg w e = []) (hcall : s.currentCall w e = none) :
    Frame cfg s s' w e := by
  refine ⟨?_, ?_, h.cancelled⟩
  · rw [hops]
    exact h.sched
  · rw [hcall, h.fatal]
    simp

/-- **An event of a worker changes the scheduler by its calls, and the fatal
state by what its current call installs.** -/
theorem workerStep_frame {s s' : SegmentedState} {w : ℕ} {e : WorkerEvent}
    (h : s.workerStep cfg w e = some s') : Frame cfg s s' w e := by
  cases e with
  | acquire readyDivisor now =>
    simp only [workerStep] at h
    split at h
    · rcases hacq : (s.sched.setReadyWorkDivisor readyDivisor).acquire now with
        - | ⟨lease, sched⟩ <;> rw [hacq] at h <;> rw [← Option.some.inj h] <;>
        constructor <;>
        simp [schedulerOps, currentCall, SegmentScheduler.run, SegmentScheduler.apply, hacq,
          setPhase]
    · cases h
  | split leaseId now =>
    simp only [workerStep] at h
    split at h
    · split at h
      · cases h
      · rename_i b hfind
        split at h
        · rename_i lease sched hsplit
          rw [← Option.some.inj h]
          constructor <;>
            simp [schedulerOps, currentCall, hfind, SegmentScheduler.run, SegmentScheduler.apply,
              hsplit, setPhase]
        · cases h
    · cases h
  | exit =>
    simp only [workerStep] at h
    split at h
    · split_ifs at h
      exact Keeps.frame cfg (.of_setPhase h) rfl rfl
    · cases h
  | respond status headers =>
    simp only [workerStep] at h
    split at h
    · refine Keeps.frame cfg ?_ rfl rfl
      rw [← Option.some.inj h]
      unfold respond
      simp only
      split <;> exact ⟨rfl, rfl, rfl⟩
    · cases h
  | requestFault e =>
    simp only [workerStep] at h
    split at h
    · exact Keeps.frame cfg (.of_setPhase h) rfl rfl
    · cases h
  | refresh =>
    simp only [workerStep] at h
    split at h
    · exact Keeps.frame cfg (.of_setPhase h) rfl rfl
    · exact Keeps.frame cfg (.of_setPhase h) rfl rfl
    · exact Keeps.frame cfg (.of_setPhase h) rfl rfl
    · cases h
  | receive len => exact Keeps.frame cfg (receive_keeps cfg h) rfl rfl
  | writeAck failure => exact Keeps.frame cfg (writeAck_keeps h) rfl rfl
  | execute index outcome =>
    simp only [workerStep, execute] at h
    split at h
    · cases h
    · rw [← Option.some.inj h]
      exact Keeps.frame cfg ⟨rfl, rfl, rfl⟩ rfl rfl
  | settleCompletion =>
    simp only [workerStep] at h
    split at h
    · exact Keeps.frame cfg (settleCompletion_keeps h) rfl rfl
    · exact Keeps.frame cfg (settleCompletion_keeps h) rfl rfl
    · cases h
  | endOfBody =>
    simp only [workerStep] at h
    split at h
    · exact Keeps.frame cfg (.of_setPhase h) rfl rfl
    · exact Keeps.frame cfg (.of_setPhase h) rfl rfl
    · cases h
  | bodyFault e => exact Keeps.frame cfg (bodyFault_keeps cfg h) rfl rfl
  | drained =>
    simp only [workerStep] at h
    split at h
    · exact Keeps.frame cfg (drained_keeps h) rfl rfl
    · cases h
  | abort =>
    simp only [workerStep] at h
    split_ifs at h
    split at h
    · exact Keeps.frame cfg (.of_setPhase h) rfl rfl
    · exact Keeps.frame cfg (.of_setPhase h) rfl rfl
    · exact Keeps.frame cfg (.of_setPhase h) rfl rfl
    · cases h
  | finish =>
    simp only [workerStep] at h
    split at h
    · exact Keeps.frame cfg (.of_setPhase h) rfl rfl
    · cases h
  | settle now =>
    simp only [workerStep] at h
    split at h
    · rename_i lease call todo hp
      rw [← Option.some.inj h]
      refine ⟨?_, ?_, (s.performSettle_fatal cfg w lease now call).2⟩
      · simp only [schedulerOps, hp]
        exact s.performSettle_sched cfg w lease now call
      · simp only [currentCall, hp, Option.bind_some]
        exact (s.performSettle_fatal cfg w lease now call).1
    · cases h

end SegmentedState

/-- An event of the job changes the ledger by ledger steps. -/
theorem segmentedStep_steps {cfg : SegmentedConfig} {s s' : SegmentedState}
    {e : SegmentedEvent} (h : segmentedStep cfg s e = some s') :
    Relation.ReflTransGen Ledger.Step s.sched.ledger s'.sched.ledger := by
  cases e with
  | worker w e =>
    simp only [segmentedStep] at h
    split_ifs at h
    rw [(SegmentedState.workerStep_frame cfg h).sched]
    exact s.sched.run_steps _
  | reconcile =>
    rw [← Option.some.inj h]
    exact s.sched.absorbWorkerProgress_steps _
  | cancel =>
    rw [← Option.some.inj h]

end KDown
