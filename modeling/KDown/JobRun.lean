/-
KDown/JobRun.lean

A job from its start to the result it reports (job/controller.rs,
job/segmented.rs, io/sink.rs, io/output_session.rs).

One task drives the job and its state machine; callers set the cancel mode and
cancel the token at any time, and the deadline may expire at any time.  The
model follows the task from one place where it may end to the next: every exit
branch produces the result, the terminal transitions and the artifact
disposition the way the source does.  Errors, the answers of the file system and
of the checkpoint store come with the events.

The temp file and the checkpoint are one bit each: there or not.  Nobody but the
job touches them.  The session drops when the task returns, and dropping it may
remove the temp file.

Admission gives the task two bits: whether its plan has a checkpoint, and whether
it resumes, that is whether the checkpoint has ranges.  The first is reported,
the second decides how the output is opened.
-/
import KDown.Errors
import KDown.JobStateMachine
import KDown.Runs

namespace KDown

/-! ### Errors and results -/

/-- The kinds of terminal errors. -/
inductive FailureDomain
  | transfer
  | infrastructure
  | cancelled
  deriving DecidableEq, Repr

/-- The kind of an error. -/
def DownloadError.domain : DownloadError → FailureDomain
  | .configuration _ => .infrastructure
  | .invalidUrl _ => .infrastructure
  | .unsupportedScheme _ => .infrastructure
  | .sinkOpen _ => .infrastructure
  | .sinkWrite _ => .infrastructure
  | .diskFull _ => .infrastructure
  | .permissionDenied _ => .infrastructure
  | .checkpoint _ => .infrastructure
  | .commit _ => .infrastructure
  | .destinationConflict _ => .infrastructure
  | .admissionRejected _ _ => .infrastructure
  | .cancelled => .cancelled
  | _ => .transfer

/-- What a cancellation does with the artifacts. -/
inductive CancelMode
  | deletePartial
  | keepPartial
  | keepFileDiscardCheckpoint
  deriving DecidableEq, Repr

/-- Disposition of retained artifacts at terminal time. -/
structure ArtifactDisposition where
  tempRetained : Bool := false
  checkpointRetained : Bool := false
  deriving DecidableEq, Repr

/-- The terminal error of a download run, without its accounting. -/
inductive DownloadRunError
  | transfer (error : DownloadError) (artifacts : ArtifactDisposition)
  | infrastructure (error : DownloadError) (artifacts : ArtifactDisposition)
  | cancelled (mode : CancelMode) (artifacts : ArtifactDisposition)

/-- What the error reports of the artifacts. -/
def DownloadRunError.artifacts : DownloadRunError → ArtifactDisposition
  | transfer _ artifacts => artifacts
  | infrastructure _ artifacts => artifacts
  | cancelled _ artifacts => artifacts

/-! ### The session and the disk -/

/-- `FileSink` inside its `OutputSession`. -/
structure TempSession where
  /-- The disposition is to preserve on drop. -/
  preserves : Bool
  finalized : Bool
  aborted : Bool
  deriving DecidableEq, Repr

/-- A new temp file. -/
def TempSession.created : TempSession := ⟨false, false, false⟩

/-- A temp file that is kept on drop. -/
def TempSession.reopened : TempSession := ⟨true, false, false⟩

/-- Dropping the session removes the temp file. -/
def TempSession.removesOnDrop (t : TempSession) : Bool :=
  !t.finalized && !t.aborted && !t.preserves

/-- What is on disk of the job. -/
structure JobDisk where
  temp : Bool
  /-- The store holds a checkpoint for the job's identity. -/
  checkpoint : Bool
  deriving DecidableEq, Repr

/-- How the file system and the store answer on the way out. -/
structure ExitAnswers where
  /-- `abort` removed the temp file, or it was not there. -/
  aborted : Bool
  /-- The same for a second `abort`. -/
  abortedAgain : Bool
  /-- The removal on drop succeeds. -/
  dropped : Bool
  /-- `store.delete` reports success. -/
  deleted : Bool
  /-- A `store.delete` that reports failure has removed the checkpoint all the same. -/
  removed : Bool
  deriving DecidableEq, Repr

/-- How creating or reopening a session ends. -/
inductive OpenAnswer
  | opened
  /-- A creation may fail before or after it has unlinked what was at the path
  (`cleared`), and then leave an entry of its own (`stray`).  A reopening changes
  nothing. -/
  | failed (error : DownloadError) (cleared stray : Bool)

/-- A temp file is there after a creation that failed; `before` is whether one
was there. -/
def leftByCreation (before cleared stray : Bool) : Bool := if cleared then stray else before

/-- What the plan of admission has of a checkpoint: none, or one that is kept,
with ranges to resume or without. -/
inductive AdmittedPlan
  | fresh
  | kept (resuming : Bool)
  deriving DecidableEq, Repr

/-- `plan.is_resuming()`. -/
def AdmittedPlan.isResuming : AdmittedPlan → Bool
  | .fresh => false
  | .kept resuming => resuming

/-- `plan.checkpoint().is_some()`. -/
def AdmittedPlan.hasCheckpoint : AdmittedPlan → Bool
  | .fresh => false
  | .kept _ => true

/-! ### The task -/

/-- The places between which the task moves. -/
inductive JobPoint
  /-- Before the probe. -/
  | starting
  | probing
  /-- The probe has succeeded: destination, lease, admission. -/
  | resolving
  /-- About to open the output. -/
  | preparing
  | sequential
  | segmented
  /-- The transfer is complete: `complete_verified_output` begins. -/
  | assembled
  | verifying
  | committing
  /-- Finalized, about to publish. -/
  | publishing
  | returned
  | reported
  deriving DecidableEq, Repr

/-- The task, its state machine and its artifacts. -/
structure JobRun where
  point : JobPoint
  state : JobState
  attempt : ℕ
  /-- The token. -/
  cancelled : Bool
  deadline : Bool
  /-- The cancel mode cell. -/
  mode : CancelMode
  /-- The mode `run_segmented` loaded when it began. -/
  segmentMode : CancelMode
  /-- The plan has ranges to reuse. -/
  resuming : Bool
  /-- The plan has a checkpoint, or the sequential loop has saved one. -/
  checkpointRetained : Bool
  /-- The coordinator of a segmented job has saved a checkpoint. -/
  checkpointSaved : Bool
  session : TempSession
  disk : JobDisk
  /-- The mode in effect when a cancelled job was cleaned up. -/
  cleanedWith : Option CancelMode
  result : Option (Except DownloadRunError Unit)

/-- What happens to the task, with the answers it gets. -/
inductive JobEvent
  /-- A caller stores the cancel mode, and then cancels the token. -/
  | setMode (mode : CancelMode)
  | cancel
  | deadlineExpires
  /-- The cap on active jobs is exhausted. -/
  | admissionRejected (active cap : ℕ)
  /-- Destination, lease or checkpoint admission fails before the probe. -/
  | rejected (error : DownloadError)
  | beginProbe
  /-- The probe loop sees the cancellation. -/
  | probeCancelled
  /-- The origin does not admit the probe. -/
  | probeRefused (error : DownloadError)
  | probeFailed (error : DownloadError)
  | probed
  /-- Destination, lease, admission or expected size fail after the probe. -/
  | unresolved (error : DownloadError)
  /-- The plan; a fresh one may leave a checkpoint in the store or not. -/
  | admitted (plan : AdmittedPlan) (checkpoint : Bool)
  | opened (answer : OpenAnswer) (eligible : Bool)
  /-- The sequential loop sees the cancellation. -/
  | observeCancel (exit : ExitAnswers)
  /-- The origin does not admit the request, or a write fails. -/
  | refused (error : DownloadError) (exit : ExitAnswers)
  /-- Authentication, overshoot or a memory cap. -/
  | fatal (error : DownloadError) (exit : ExitAnswers)
  | transferFailed (error : DownloadError) (exit : ExitAnswers) (next : OpenAnswer)
  /-- A body breaks off; the tracker's frontier is zero or not. -/
  | bodyFailed (error : DownloadError) (durable : Bool) (exit : ExitAnswers) (next : OpenAnswer)
  | saved
  /-- A save fails; it has stored its checkpoint all the same, or has left the
  store as it was. -/
  | saveFailed (detail : String) (stored : Bool) (exit : ExitAnswers)
  | bodyEnded
  /-- The coordinator has saved. -/
  | coordinatorSaved
  /-- A save of the coordinator fails, in the same way. -/
  | coordinatorSaveFailed (stored : Bool)
  /-- The sync capability or the write handles are refused. -/
  | segmentedRefused (error : DownloadError) (exit : ExitAnswers)
  /-- All workers have joined. -/
  | joined (workerError reclaimError fatal : Option DownloadError) (complete : Bool)
      (exit : ExitAnswers)
  /-- Verification sees the cancellation. -/
  | verifyCancelled (exit : ExitAnswers)
  | beginVerify
  | verifyFailed (error : DownloadError) (exit : ExitAnswers)
  | beginCommit
  | finalizeFailed (error : DownloadError) (exit : ExitAnswers)
  | finalized
  /-- Publication fails, which changes nothing at the temp path. -/
  | commitFailed (error : DownloadError) (exit : ExitAnswers)
  /-- Publication succeeds, and leaves the temp file behind or not. -/
  | committed (left : Bool) (exit : ExitAnswers)
  /-- The result is reported. -/
  | report

namespace JobRun

variable (cfg : RetryPolicy)

/-- A new job, with what earlier runs left on disk. -/
def start (disk : JobDisk) : JobRun where
  point := .starting
  state := .created
  attempt := 0
  cancelled := false
  deadline := false
  mode := .deletePartial
  segmentMode := .deletePartial
  resuming := false
  checkpointRetained := false
  checkpointSaved := false
  session := .created
  disk := disk
  cleanedWith := none
  result := none

/-- A transition whose refusal is ignored. -/
def transition (s : JobRun) (target : JobState) : JobRun :=
  { s with state :=
    if s.state.isTerminal then s.state
    else if JobState.allowed s.state target then target else s.state }

/-- The task returns, and the session is dropped, if one is open; `dropped` is
whether a removal succeeds. -/
def finish (s : JobRun) (result : Except DownloadRunError Unit) (dropped : Bool) : JobRun :=
  { s with
    point := .returned
    result := some result
    disk := { s.disk with temp := s.disk.temp && !(s.session.removesOnDrop && dropped) } }

/-- Route one terminal engine error. -/
def terminalError (s : JobRun) (error : DownloadError) (artifacts : ArtifactDisposition)
    (mode : CancelMode) (dropped : Bool) : JobRun :=
  let s := (s.transition .failing).transition .failed
  match error.domain with
  | .transfer => s.finish (.error (.transfer error artifacts)) dropped
  | .infrastructure => s.finish (.error (.infrastructure error artifacts)) dropped
  | .cancelled => s.finish (.error (.cancelled mode artifacts)) dropped

/-- Return as cancelled. -/
def terminalCancelled (s : JobRun) (mode : CancelMode) (artifacts : ArtifactDisposition)
    (dropped : Bool) : JobRun :=
  ((s.transition .cancelling).transition .cancelled).finish (.error (.cancelled mode artifacts))
    dropped

/-- Remove the temp file; the flag is whether that failed. -/
def abort (s : JobRun) (aborted : Bool) : JobRun × Bool :=
  if aborted then
    ({ s with session := { s.session with aborted := true }, disk := { s.disk with temp := false } },
      false)
  else (s, true)

/-- Keep the temp file when the session is dropped. -/
def preservePartial (s : JobRun) : JobRun :=
  { s with session := { s.session with preserves := true } }

/-- `store.delete`; the flag is whether it failed. -/
def deleteCheckpoint (s : JobRun) (exit : ExitAnswers) : JobRun × Bool :=
  if exit.deleted then ({ s with disk := { s.disk with checkpoint := false } }, false)
  else
    ({ s with disk := { s.disk with checkpoint := s.disk.checkpoint && !exit.removed } }, true)

/-- Cleanup for a cancelled job. -/
def cleanupCancelled (s : JobRun) (mode : CancelMode) (exit : ExitAnswers) :
    JobRun × ArtifactDisposition :=
  let s := { s with cleanedWith := some mode }
  match mode with
  | .deletePartial =>
      let temp := s.abort exit.aborted
      let checkpoint := temp.1.deleteCheckpoint exit
      (checkpoint.1, ⟨temp.2, checkpoint.2⟩)
  | .keepPartial => (s.preservePartial, ⟨true, true⟩)
  | .keepFileDiscardCheckpoint =>
      let checkpoint := s.preservePartial.deleteCheckpoint exit
      (checkpoint.1, ⟨true, checkpoint.2⟩)

/-! ### Exits before the transfer -/

/-- An exit that leaves no artifacts. -/
def exitBare (s : JobRun) (error : DownloadError) : JobRun :=
  s.terminalError error {} s.mode false

/-- A cancellation that finds nothing to clean up. -/
def exitCancelledBare (s : JobRun) : JobRun :=
  { s with cleanedWith := some s.mode }.terminalCancelled s.mode {} false

/-- Open the output: the admitted temp file again, or a new one. -/
def openOutput (s : JobRun) (answer : OpenAnswer) (eligible : Bool) : JobRun :=
  match answer with
  | .failed error cleared stray =>
      -- a failed reopen leaves the resumed temp file in place
      if s.resuming then s.terminalError error ⟨s.resuming, s.checkpointRetained⟩ s.mode false
      else
        { s with disk := { s.disk with temp := leftByCreation s.disk.temp cleared stray }
          }.terminalError error {} s.mode false
  | .opened =>
      let s := { s.transition .running with
        disk := { s.disk with temp := true }
        session := if s.resuming then .reopened else .created }
      if eligible then { s.preservePartial with point := .segmented, segmentMode := s.mode }
      else { s with point := .sequential }

/-! ### The sequential loop -/

/-- The loop has seen the cancellation: clean up and return. -/
def exitCancelled (s : JobRun) (exit : ExitAnswers) : JobRun :=
  let cleanup := s.cleanupCancelled s.mode exit
  cleanup.1.terminalCancelled s.mode cleanup.2 exit.dropped

/-- The temp file is removed and the job fails. -/
def exitAborted (s : JobRun) (error : DownloadError) (exit : ExitAnswers) : JobRun :=
  let aborted := s.abort exit.aborted
  aborted.1.terminalError error ⟨aborted.2, s.checkpointRetained⟩ s.mode exit.dropped

/-- The error reported when a failure is not tried again. -/
def givenUp (error : DownloadError) : DownloadError :=
  if cfg.retryable error then .retryExhausted error else error

/-- The next session replaces the one that is there, which is dropped only
then: unless it was aborted or preserves its file, that removes the new file. -/
def replace (s : JobRun) (next : TempSession) (attempt : ℕ) (dropped : Bool) : JobRun :=
  { s with
    attempt := attempt
    session := next
    disk := { s.disk with temp := !(s.session.removesOnDrop && dropped) } }

/-- Start again with a new temp file. -/
def recreate (s : JobRun) (attempt : ℕ) (exit : ExitAnswers) (next : OpenAnswer) : JobRun :=
  let aborted := s.abort exit.aborted
  match next with
  | .opened => aborted.1.replace .created attempt exit.dropped
  | .failed error cleared stray =>
      let temp := leftByCreation aborted.1.disk.temp cleared stray
      { aborted.1 with disk := { aborted.1.disk with temp := temp } }.terminalError error
        ⟨aborted.2, s.checkpointRetained⟩ s.mode exit.dropped

/-- A request fails: start again with a new file, or give up. -/
def transferFails (s : JobRun) (error : DownloadError) (exit : ExitAnswers) (next : OpenAnswer) :
    JobRun :=
  match cfg.decide error s.attempt with
  | some attempt => s.recreate attempt exit next
  | none =>
      -- the file was removed before the decision, and is removed again
      let again := (s.abort exit.aborted).1.abort exit.abortedAgain
      again.1.terminalError (givenUp cfg error) ⟨again.2, s.checkpointRetained⟩ s.mode exit.dropped

/-- A body breaks off: go on at the frontier, start again, or give up. -/
def bodyFails (s : JobRun) (error : DownloadError) (durable : Bool) (exit : ExitAnswers)
    (next : OpenAnswer) : JobRun :=
  match cfg.decide error s.attempt with
  | some attempt =>
      if durable then
        let s := s.preservePartial
        match next with
        | .opened => s.replace .reopened attempt exit.dropped
        | .failed error _ _ =>
            s.terminalError error ⟨true, s.checkpointRetained⟩ s.mode exit.dropped
      else s.recreate attempt exit next
  | none => s.exitAborted (givenUp cfg error) exit

/-- A checkpoint is saved; the file it describes is kept from now on. -/
def save (s : JobRun) : JobRun :=
  { s.preservePartial with
    checkpointRetained := true, disk := { s.disk with checkpoint := true } }

/-- A failed save stops the job with its partial output preserved. -/
def checkpointSaveFailed (s : JobRun) (detail : String) (stored : Bool) (exit : ExitAnswers) :
    JobRun :=
  { s.preservePartial with
    disk := { s.disk with checkpoint := s.disk.checkpoint || stored } }.terminalError
    (.checkpoint detail) ⟨true, true⟩ s.mode exit.dropped

/-! ### Segmented outcomes -/

/-- What a segmented job reports of its artifacts when it does not clean up. -/
def segmentedArtifacts (s : JobRun) : ArtifactDisposition :=
  ⟨true, s.checkpointRetained || s.checkpointSaved⟩

/-- `finish_segmented` for a failed outcome; `run_segmented` may have gone to
the terminal state already. -/
def segmentedFails (s : JobRun) (error : DownloadError) (exit : ExitAnswers) : JobRun :=
  s.terminalError error s.segmentedArtifacts s.segmentMode exit.dropped

/-- The workers have joined: the outcome of `run_segmented`, and what
`finish_segmented` makes of it. -/
def join (s : JobRun) (workerError reclaimError fatal : Option DownloadError) (complete : Bool)
    (exit : ExitAnswers) : JobRun :=
  let outcomeError := workerError.or reclaimError
  if s.cancelled then
    match reclaimError with
    | none =>
        let cleanup := s.cleanupCancelled s.mode exit
        cleanup.1.terminalCancelled s.segmentMode cleanup.2 exit.dropped
    | some _ => s.segmentedFails (outcomeError.getD .cancelled) exit
  else
    match outcomeError.or fatal with
    | some error => s.segmentedFails error exit
    | none =>
        if complete then { s with point := .assembled }
        else s.segmentedFails (.protocol "segmented transfer ended with incomplete coverage") exit

/-! ### Verification and publication -/

/-- Why the token is cancelled. -/
def cancellationError (s : JobRun) : DownloadError :=
  if s.deadline then .deadlineExceeded else .cancelled

/-- An exit of `complete_verified_output`. -/
def exitUnverified (s : JobRun) (error : DownloadError) (exit : ExitAnswers) : JobRun :=
  s.terminalError error ⟨s.session.preserves, s.checkpointRetained⟩ .deletePartial exit.dropped

/-- Publication has succeeded. -/
def publish (s : JobRun) (left : Bool) (exit : ExitAnswers) : JobRun :=
  (({ s with disk := { s.disk with temp := left } }.deleteCheckpoint exit).1.transition
    .completed).finish (.ok ()) exit.dropped

/-- The result of a job that stopped because its deadline expired. -/
def rewriteDeadline (deadline : Bool) : Except DownloadRunError Unit → Except DownloadRunError Unit
  | .error (.cancelled mode artifacts) =>
      if deadline then .error (.infrastructure .deadlineExceeded artifacts)
      else .error (.cancelled mode artifacts)
  | other => other

/-- A step that is possible when `enabled`. -/
def ifEnabled (enabled : Bool) (s : JobRun) : Option JobRun := if enabled then some s else none

theorem ifEnabled_some {b : Bool} {s s' : JobRun} (h : ifEnabled b s = some s') :
    b = true ∧ s = s' := by
  rw [ifEnabled] at h
  split_ifs at h with hb
  exact ⟨hb, Option.some.inj h⟩

/-- An event of one point happens there. -/
theorem ifEnabled_at {p : JobPoint} {s t s' : JobRun}
    (h : ifEnabled (decide (s.point = p)) t = some s') : s.point = p ∧ t = s' := by
  obtain ⟨hp, ht⟩ := ifEnabled_some h
  exact ⟨of_decide_eq_true hp, ht⟩

/-- One event. -/
def step (s : JobRun) : JobEvent → Option JobRun
  | .setMode mode => some { s with mode := mode }
  | .cancel => some { s with cancelled := true }
  | .deadlineExpires => ifEnabled (s.point ≠ .reported) { s with deadline := true, cancelled := true }
  | .admissionRejected active cap =>
      ifEnabled (s.point = .starting)
        (((s.transition .failing).transition .failed).finish
          (.error (.infrastructure (.admissionRejected active cap) {})) false)
  | .rejected error => ifEnabled (s.point = .starting) (s.exitBare error)
  | .beginProbe => ifEnabled (s.point = .starting) { s.transition .probing with point := .probing }
  | .probeCancelled => ifEnabled (s.point = .probing && s.cancelled) s.exitCancelledBare
  | .probeRefused error =>
      ifEnabled (s.point = .probing)
        (if error.domain = .cancelled || s.cancelled then s.exitCancelledBare else s.exitBare error)
  | .probeFailed error =>
      ifEnabled (s.point = .probing)
        (match cfg.decide error s.attempt with
        | some attempt => { s with attempt := attempt }
        | none => s.exitBare error)
  | .probed => ifEnabled (s.point = .probing) { s with point := .resolving }
  | .unresolved error => ifEnabled (s.point = .resolving) (s.exitBare error)
  | .admitted plan checkpoint =>
      ifEnabled (s.point = .resolving)
        { s.transition .preparing with
          point := .preparing
          attempt := 0
          resuming := plan.isResuming
          checkpointRetained := plan.hasCheckpoint
          -- a checkpoint that is kept is in the store
          disk := { s.disk with checkpoint := plan.hasCheckpoint || checkpoint } }
  | .opened answer eligible => ifEnabled (s.point = .preparing) (s.openOutput answer eligible)
  | .observeCancel exit => ifEnabled (s.point = .sequential && s.cancelled) (s.exitCancelled exit)
  | .refused error exit =>
      ifEnabled (s.point = .sequential)
        (if error.domain = .cancelled || s.cancelled then s.exitCancelled exit
        else s.exitAborted error exit)
  | .fatal error exit => ifEnabled (s.point = .sequential) (s.exitAborted error exit)
  | .transferFailed error exit next =>
      ifEnabled (s.point = .sequential) (s.transferFails cfg error exit next)
  | .bodyFailed error durable exit next =>
      ifEnabled (s.point = .sequential)
        (if error.domain = .cancelled then s.exitCancelled exit
        else s.bodyFails cfg error durable exit next)
  | .saved => ifEnabled (s.point = .sequential) s.save
  | .saveFailed detail stored exit =>
      ifEnabled (s.point = .sequential) (s.checkpointSaveFailed detail stored exit)
  | .bodyEnded => ifEnabled (s.point = .sequential) { s with point := .assembled }
  | .coordinatorSaved =>
      ifEnabled (s.point = .segmented)
        { s with checkpointSaved := true, disk := { s.disk with checkpoint := true } }
  | .coordinatorSaveFailed stored =>
      -- the job stops with this error when its workers have joined
      ifEnabled (s.point = .segmented)
        { s with disk := { s.disk with checkpoint := s.disk.checkpoint || stored } }
  | .segmentedRefused error exit => ifEnabled (s.point = .segmented) (s.segmentedFails error exit)
  | .joined workerError reclaimError fatal complete exit =>
      ifEnabled (s.point = .segmented) (s.join workerError reclaimError fatal complete exit)
  | .verifyCancelled exit =>
      ifEnabled ((s.point = .assembled || s.point = .verifying) && s.cancelled)
        (s.exitUnverified s.cancellationError exit)
  | .beginVerify =>
      ifEnabled (s.point = .assembled && !s.cancelled)
        { s.transition .verifying with point := .verifying }
  | .verifyFailed error exit => ifEnabled (s.point = .verifying) (s.exitUnverified error exit)
  | .beginCommit =>
      ifEnabled (s.point = .verifying && !s.cancelled)
        { s.transition .committing with point := .committing }
  | .finalizeFailed error exit => ifEnabled (s.point = .committing) (s.exitUnverified error exit)
  | .finalized =>
      ifEnabled (s.point = .committing)
        { s with point := .publishing, session := { s.session with finalized := true } }
  | .commitFailed error exit => ifEnabled (s.point = .publishing) (s.exitUnverified error exit)
  | .committed left exit => ifEnabled (s.point = .publishing) (s.publish left exit)
  | .report =>
      ifEnabled (s.point = .returned)
        { s with point := .reported, result := s.result.map (rewriteDeadline s.deadline) }

end JobRun

end KDown
