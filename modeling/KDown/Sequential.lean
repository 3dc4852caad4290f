/-
KDown/Sequential.lean

The single-stream download loop (job/controller.rs) with its temp file
(io/output_session.rs) and its durable prefix (resume/durable_ranges.rs).

The loop keeps three records of one fact side by side: the offset the next
chunk is written at, the frontier of the durable-range tracker, and the temp
file itself.  A failed request deletes the temp file, creates a new one and
starts again at offset zero.  A body that breaks off keeps the temp file and
continues where the tracker's frontier stands.  The tracker is never reset, so
the two retries disagree once a new file is shorter than an old one was.

* The server and the file system are oracles: each event carries the response
  head, chunk length or fault, and the answers of the file-system calls made.
* A temp file is the list of chunks written into it since it was created,
  together with the admitted resume prefix if it is the resumed file.

Admission at the origin, rate limits, memory reservations and delays either end
the job or change nothing here.
-/
import KDown.ResumeAdmission
import KDown.RangeResponse
import KDown.Runs

namespace KDown

/-! ### The durable-range tracker -/

/-- When written bytes count as durable. -/
inductive DurabilityMode
  | performance
  | durable
  deriving DecidableEq, Repr

/-- How far the bytes are durable. -/
structure DurableRangeTracker where
  mode : DurabilityMode
  acknowledgedThrough : ℕ
  deriving DecidableEq, Repr

namespace DurableRangeTracker

/-- Nothing is written. -/
def new (mode : DurabilityMode) : DurableRangeTracker := ⟨mode, 0⟩

/-- Writes before `through` reached the page cache.  The frontier never
recedes. -/
def pageCacheAck (t : DurableRangeTracker) (through : ℕ) : DurableRangeTracker :=
  if t.acknowledgedThrough < through then { t with acknowledgedThrough := through } else t

/-- The highest offset that may be recorded as durable. -/
def admissibleThrough (t : DurableRangeTracker) : ℕ :=
  match t.mode with
  | .performance => t.acknowledgedThrough
  | .durable => t.acknowledgedThrough

end DurableRangeTracker

/-! ### The temp file and the session that owns it -/

/-- A temp file, by the writes that made it. -/
structure TempFile where
  /-- Length of the admitted resume prefix; zero for a file the loop created. -/
  admitted : ℕ
  /-- Offset and length of each chunk written since. -/
  writes : List (ℕ × ℕ)
  deriving DecidableEq, Repr

namespace TempFile

/-- The byte was written by a chunk, or belongs to the admitted prefix. -/
def Holds (f : TempFile) (b : ℕ) : Prop :=
  b < f.admitted ∨ ∃ w ∈ f.writes, w.1 ≤ b ∧ b < w.1 + w.2

instance (f : TempFile) (b : ℕ) : Decidable (f.Holds b) :=
  inferInstanceAs (Decidable (b < f.admitted ∨ ∃ w ∈ f.writes, w.1 ≤ b ∧ b < w.1 + w.2))

/-- Every byte before `n` is there. -/
def Filled (f : TempFile) (n : ℕ) : Prop := ∀ b < n, f.Holds b

/-- The write is recorded. -/
def writeAt (f : TempFile) (offset len : ℕ) : TempFile :=
  { f with writes := f.writes ++ [(offset, len)] }

theorem Filled.mono {f : TempFile} {m n : ℕ} (h : f.Filled n) (hmn : m ≤ n) : f.Filled m :=
  fun b hb => h b (hb.trans_le hmn)

theorem filled_zero (f : TempFile) : f.Filled 0 := fun _ hb => absurd hb (Nat.not_lt_zero _)

/-- A chunk written at the end of the filled prefix extends it. -/
theorem Filled.writeAt {f : TempFile} {n : ℕ} (h : f.Filled n) (len : ℕ) :
    (f.writeAt n len).Filled (n + len) := by
  intro b hb
  -- before the chunk, or inside it
  rcases lt_or_ge b n with hlt | hge
  · rcases h b hlt with hadm | ⟨w, hw, hbw⟩
    · exact .inl hadm
    · exact .inr ⟨w, List.mem_append_left _ hw, hbw⟩
  · exact .inr ⟨(n, len), List.mem_append_right _ List.mem_cons_self, hge, hb⟩

end TempFile

/-- The session that owns the temp file. -/
structure OutputSession where
  file : TempFile
  /-- The temp path still names `file`. -/
  linked : Bool
  /-- Dropping the session keeps the file. -/
  preserves : Bool
  aborted : Bool
  deriving DecidableEq, Repr

/-- How the file system answers the calls of a retry. -/
structure DiskOutcome where
  /-- The temp file was removed, or was not there. -/
  removed : Bool
  /-- The failure to create or open the next one. -/
  openFailure : Option DownloadError

namespace OutputSession

/-- Remove the temp file. -/
def abort (s : OutputSession) (removed : Bool) : OutputSession :=
  if removed then { s with linked := false, aborted := true } else s

/-- From here on a drop keeps the temp file. -/
def preservePartial (s : OutputSession) : OutputSession := { s with preserves := true }

/-- Replace the session by one over a new, empty file.  The old session is
dropped only then; unless it was aborted or preserves its file, it removes what
the temp path names, which is already the new file. -/
def create (old : OutputSession) (failure : Option DownloadError) :
    Except DownloadError OutputSession :=
  match failure with
  | some e => .error e
  | none =>
      .ok { file := ⟨0, []⟩, linked := old.aborted || old.preserves, preserves := false,
            aborted := false }

/-- Replace the session by one that opens the same file without truncating
it. -/
def reopen (old : OutputSession) (failure : Option DownloadError) :
    Except DownloadError OutputSession :=
  match failure with
  | some e => .error e
  | none =>
      if old.linked then .ok { old with preserves := true, aborted := false }
      else .error (.sinkOpen "No such file or directory (os error 2)")

theorem reopen_file {old s : OutputSession} {failure : Option DownloadError}
    (h : old.reopen failure = .ok s) : s.file = old.file := by
  unfold reopen at h
  cases failure with
  | some e => cases h
  | none =>
    simp only at h
    split_ifs at h
    cases h
    rfl

end OutputSession

/-! ### Configuration and state -/

/-- What a sequential job is started with. -/
structure SequentialConfig where
  /-- The admitted checkpoint, if the job resumes. -/
  checkpoint : Option Checkpoint
  totalSize : Option ℕ
  /-- The validators the probe returned. -/
  probed : ResourceValidators
  expectedSize : Option ℕ
  retry : RetryPolicy
  durability : DurabilityMode
  hasCredentialProvider : Bool

namespace SequentialConfig

/-- The plan that admission hands over. -/
def plan (cfg : SequentialConfig) : ResumePlan :=
  match cfg.checkpoint with
  | some cp => .resuming cp
  | none => .fresh [] []

/-- The plan has ranges to resume from. -/
def resuming (cfg : SequentialConfig) : Bool := cfg.plan.isResuming

/-- The validators of the checkpoint, if there is one. -/
def resumeValidators (cfg : SequentialConfig) : Option ResourceValidators :=
  cfg.plan.checkpoint.map (·.validators)

/-- The request is conditional on the validators of the checkpoint. -/
def conditionalResume (cfg : SequentialConfig) : Bool :=
  cfg.resuming && cfg.resumeValidators.isSome

end SequentialConfig

/-- Where the loop stands. -/
inductive LoopPhase
  /-- The checkpoint of a resumed job is about to be refreshed. -/
  | refreshing
  /-- The top of the loop. -/
  | top
  /-- A body is being read; `delivered` of its bytes passed its limit. -/
  | streaming (limit : Option ByteRange) (delivered : ℕ)
  /-- The loop ended and the offset is handed to verification. -/
  | ended
  | failed (error : DownloadError)
  | cancelled

/-- The job, between two events of its loop. -/
structure SequentialState where
  phase : LoopPhase
  offset : ℕ
  validators : ResourceValidators
  attempt : ℕ
  durable : DurableRangeTracker
  sink : OutputSession
  authStages : ℕ

/-- The number of times a credential provider is asked. -/
def maxAuthStages : ℕ := 2

/-- The answer of the credential provider to a challenge. -/
inductive CredentialDecision
  | headers
  | declined
  deriving DecidableEq, Repr

/-- How a checkpoint save ended. -/
inductive SaveOutcome
  | notDue
  | saved
  | failed (error : CheckpointError)

/-- What the loop meets next. -/
inductive SequentialEvent
  /-- A cancellation is observed. -/
  | cancel
  /-- The checkpoint of a resumed job was saved again, or that failed. -/
  | refresh (save : SaveOutcome)
  /-- Nothing is left to fetch. -/
  | covered
  /-- The origin refuses the request. -/
  | refused (error : DownloadError)
  /-- A response head arrives. -/
  | respond (status : ℕ) (headers : Headers) (challenge : Option CredentialDecision)
      (disk : DiskOutcome)
  /-- The request fails without a response. -/
  | requestFault (error : DownloadError) (disk : DiskOutcome)
  /-- A chunk arrives; `failure` is that of its reservation or its write. -/
  | chunk (len : ℕ) (failure : Option DownloadError) (save : SaveOutcome) (disk : DiskOutcome)
  | endOfBody
  | paused (save : SaveOutcome)
  | bodyFault (error : DownloadError) (disk : DiskOutcome)

namespace SequentialState

variable (cfg : SequentialConfig)

/-- The request at the top of the loop. -/
def intent (s : SequentialState) : TransferIntent :=
  if cfg.resuming || 0 < s.offset then
    .range
      { range := (s.offset, cfg.totalSize.getD u64Max - 1)
        establishedTotal := cfg.totalSize
        expectedValidators :=
          if cfg.resumeValidators.isSome then cfg.resumeValidators else some s.validators
        -- only a resumed request carries `If-Range`
        fullResponse := if cfg.conditionalResume then .resourceChanged else .invalidRange }
  else .full

/-- The error reported when a failure is not tried again. -/
def givenUp (error : DownloadError) : DownloadError :=
  if cfg.retry.retryable error then .retryExhausted error else error

/-- The job fails. -/
def fail (s : SequentialState) (error : DownloadError) : SequentialState :=
  { s with phase := .failed error }

/-- Continue at the top of the loop with the next session. -/
def restartAt (s : SequentialState) (attempt offset : ℕ)
    (sink : Except DownloadError OutputSession) : SequentialState :=
  match sink with
  | .error e => s.fail e
  | .ok sink => { s with phase := .top, attempt := attempt, offset := offset, sink := sink }

/-- A failed request: the temp file is deleted first; a retry starts from zero
with a new one. -/
def transferFailed (s : SequentialState) (error : DownloadError) (disk : DiskOutcome) :
    SequentialState :=
  -- the file goes before the decision to retry, and the tracker stays as it is
  let s := { s with sink := s.sink.abort disk.removed }
  match cfg.retry.decide error s.attempt with
  | some next => s.restartAt next 0 (s.sink.create disk.openFailure)
  | none => s.fail (givenUp cfg error)

/-- A challenge the provider is asked about at most `maxAuthStages` times. -/
def challenged (s : SequentialState) (decision : CredentialDecision) : SequentialState :=
  if s.authStages < maxAuthStages then
    let s := { s with authStages := s.authStages + 1 }
    match decision with
    | .headers => s
    | .declined => s.fail .authenticationRequired
  else s.fail .authenticationRequired

/-- A response head arrives. -/
def respond (s : SequentialState) (status : ℕ) (headers : Headers)
    (challenge : Option CredentialDecision) (disk : DiskOutcome) : SequentialState :=
  match transfer (s.intent cfg) status headers with
  | .ok response =>
      { s with phase := .streaming response.limit 0, validators := response.validators }
  | .error e =>
      match challenge, cfg.hasCredentialProvider with
      | some decision, true => s.challenged decision
      | _, _ => s.transferFailed cfg e disk

/-- A body that breaks off: a retry continues from the tracker's frontier in
the same file, or from zero in a new one when the frontier is zero. -/
def bodyFault (s : SequentialState) (error : DownloadError) (disk : DiskOutcome) :
    SequentialState :=
  match error with
  | .cancelled => { s with phase := .cancelled }
  | error =>
    match cfg.retry.decide error s.attempt with
    | some next =>
        -- the frontier of all bodies so far, also of those in a deleted file
        let durableThrough := s.durable.admissibleThrough
        if 0 < durableThrough then
          s.restartAt next durableThrough (s.sink.preservePartial.reopen disk.openFailure)
        else
          s.restartAt next 0 ((s.sink.abort disk.removed).create disk.openFailure)
    | none => s.fail (givenUp cfg error)

/-- The effect of a checkpoint save on the session. -/
def afterSave (s : SequentialState) (save : SaveOutcome) : SequentialState :=
  match save with
  | .notDue => s
  | .saved => { s with sink := s.sink.preservePartial }
  | .failed e => { s with sink := s.sink.preservePartial }.fail (.checkpoint e.message)

/-- A chunk of an accepted body.  The body limit turns an overrun into a body
fault; the checks that follow end the job. -/
def chunk (s : SequentialState) (limit : Option ByteRange) (delivered len : ℕ)
    (failure : Option DownloadError) (save : SaveOutcome) (disk : DiskOutcome) :
    SequentialState :=
  if !limitAccepts limit delivered len then
    s.bodyFault cfg (.invalidRangeResponse
      s!"response body exceeds accepted range [{(limit.getD (0, 0)).1}, {(limit.getD (0, 0)).2}]")
      disk
  else if cfg.expectedSize.any (· < s.offset + len) then
    s.fail (.protocol s!"body exceeds expected size {cfg.expectedSize.getD 0}")
  else
    match failure with
    | some .cancelled => { s with phase := .cancelled }
    | some e => s.fail e
    | none =>
        let s := { s with
          phase := .streaming limit (delivered + len)
          sink := { s.sink with file := s.sink.file.writeAt s.offset len }
          offset := s.offset + len
          -- acknowledged without looking at the file the tracker began with
          durable := s.durable.pageCacheAck (s.offset + len) }
        if 0 < s.offset then s.afterSave save else s

end SequentialState

open SequentialState in
/-- One event of the loop. -/
def sequentialStep (cfg : SequentialConfig) (s : SequentialState) :
    SequentialEvent → Option SequentialState
  | .cancel =>
      match s.phase with
      | .top | .streaming _ _ => some { s with phase := .cancelled }
      | _ => none
  | .refresh save =>
      match s.phase with
      | .refreshing =>
          match save with
          | .failed _ => some (s.afterSave save)
          | _ => some { s with phase := .top }
      | _ => none
  | .covered =>
      match s.phase with
      | .top => if cfg.totalSize.any (· ≤ s.offset) then some { s with phase := .ended } else none
      | _ => none
  | .refused e =>
      match s.phase with
      | .top => if cfg.totalSize.any (· ≤ s.offset) then none else some (s.fail e)
      | _ => none
  | .respond status headers challenge disk =>
      match s.phase with
      | .top =>
          if cfg.totalSize.any (· ≤ s.offset) then none
          else some (s.respond cfg status headers challenge disk)
      | _ => none
  | .requestFault e disk =>
      match s.phase with
      | .top =>
          if cfg.totalSize.any (· ≤ s.offset) then none
          else some (s.transferFailed cfg e disk)
      | _ => none
  | .chunk len failure save disk =>
      match s.phase with
      | .streaming limit delivered => some (s.chunk cfg limit delivered len failure save disk)
      | _ => none
  | .endOfBody =>
      match s.phase with
      | .streaming _ _ => some { s with phase := .ended }
      | _ => none
  | .paused save =>
      match s.phase with
      | .streaming _ _ =>
          let s := { s with durable := s.durable.pageCacheAck s.offset }
          some (if cfg.totalSize.isSome && 0 < s.offset then s.afterSave save else s)
      | _ => none
  | .bodyFault e disk =>
      match s.phase with
      | .streaming _ _ => some (s.bodyFault cfg e disk)
      | _ => none

/-- The loop at its start: a resumed job has reopened the admitted file, a fresh
one has created its own. -/
def sequentialInit (cfg : SequentialConfig) : SequentialState where
  phase := if cfg.resuming then .refreshing else .top
  offset := cfg.plan.contiguousPrefix
  validators := cfg.probed
  attempt := 0
  durable := (DurableRangeTracker.new cfg.durability).pageCacheAck cfg.plan.contiguousPrefix
  sink :=
    { file := ⟨cfg.plan.contiguousPrefix, []⟩, linked := true, preserves := cfg.resuming,
      aborted := false }
  authStages := 0

/-! ### What the loop hands over -/

/-- A body fault that is tried again finds the tracker's frontier within what
the current stream has written. -/
def SequentialState.continuesWritten (cfg : SequentialConfig) (s : SequentialState) :
    SequentialEvent → Prop
  | .bodyFault e _ =>
      (cfg.retry.decide e s.attempt).isSome = true → s.durable.admissibleThrough ≤ s.offset
  | _ => True

instance (cfg : SequentialConfig) (s : SequentialState) (e : SequentialEvent) :
    Decidable (s.continuesWritten cfg e) := by
  unfold SequentialState.continuesWritten
  split <;> infer_instance

namespace SequentialState

variable {cfg : SequentialConfig} {s : SequentialState}

/-- The current temp file is filled up to the offset. -/
def Sound (s : SequentialState) : Prop := s.sink.file.Filled s.offset

theorem abort_file (sink : OutputSession) (removed : Bool) :
    (sink.abort removed).file = sink.file := by
  unfold OutputSession.abort
  split <;> rfl

/-- A retry is sound when the next session's file is filled up to where it
continues. -/
theorem Sound.restartAt (h : s.Sound) {attempt offset : ℕ}
    {sink : Except DownloadError OutputSession}
    (hsink : ∀ next, sink = .ok next → next.file.Filled offset) :
    (s.restartAt attempt offset sink).Sound := by
  cases sink with
  | error e => exact h
  | ok next => exact hsink next rfl

theorem Sound.afterSave (h : s.Sound) (save : SaveOutcome) : (s.afterSave save).Sound := by
  cases save <;> exact h

theorem Sound.challenged (h : s.Sound) (decision : CredentialDecision) :
    (s.challenged decision).Sound := by
  unfold SequentialState.challenged
  split
  · cases decision <;> exact h
  · exact h

theorem Sound.transferFailed (h : s.Sound) (e : DownloadError) (disk : DiskOutcome) :
    (s.transferFailed cfg e disk).Sound := by
  have haborted : Sound { s with sink := s.sink.abort disk.removed } := by
    simp only [Sound, abort_file]
    exact h
  unfold SequentialState.transferFailed
  simp only
  split
  · -- the new file is empty, and so is the prefix before offset zero
    exact haborted.restartAt fun next _ => next.file.filled_zero
  · exact haborted

theorem Sound.respond (h : s.Sound) (status : ℕ) (headers : Headers)
    (challenge : Option CredentialDecision) (disk : DiskOutcome) :
    (s.respond cfg status headers challenge disk).Sound := by
  unfold SequentialState.respond
  split
  · exact h
  · split
    · -- asking for credentials leaves the file alone
      exact h.challenged _
    · exact h.transferFailed _ disk

/-- A body fault keeps the file filled if the frontier it may continue from
lies within what was written. -/
theorem Sound.bodyFault (h : s.Sound) {e : DownloadError} {disk : DiskOutcome}
    (hok : (cfg.retry.decide e s.attempt).isSome = true →
      s.durable.admissibleThrough ≤ s.offset) :
    (s.bodyFault cfg e disk).Sound := by
  unfold SequentialState.bodyFault
  split
  · exact h
  rcases hd : cfg.retry.decide e s.attempt with _ | next <;> simp only
  · exact h
  split_ifs
  · -- the reopened file is the same, and the frontier lies in its filled part
    refine h.restartAt fun session hopen => ?_
    rw [OutputSession.reopen_file hopen]
    exact h.mono (hok (by rw [hd]; rfl))
  · exact h.restartAt fun session _ => session.file.filled_zero

theorem decide_invalidRangeResponse (retry : RetryPolicy) (detail : String) (attempt : ℕ) :
    retry.decide (.invalidRangeResponse detail) attempt = none := rfl

theorem Sound.chunk (h : s.Sound) (limit : Option ByteRange) (delivered len : ℕ)
    (failure : Option DownloadError) (save : SaveOutcome) (disk : DiskOutcome) :
    (s.chunk cfg limit delivered len failure save disk).Sound := by
  unfold SequentialState.chunk
  split_ifs
  · -- an overrun of the accepted range is not tried again
    refine h.bodyFault fun hretry => ?_
    rw [decide_invalidRangeResponse] at hretry
    cases hretry
  · exact h
  · rcases failure with _ | e
    · simp only
      split_ifs
      · apply Sound.afterSave
        exact h.writeAt len
      · exact h.writeAt len
    · cases e <;> exact h

/-- Every event that meets the condition keeps the file filled up to the
offset. -/
theorem Sound.step {e : SequentialEvent} {s' : SequentialState} (h : s.Sound)
    (hok : s.continuesWritten cfg e) (hstep : sequentialStep cfg s e = some s') : s'.Sound := by
  cases e with
  | cancel | endOfBody =>
    simp only [sequentialStep] at hstep
    split at hstep <;> cases hstep <;> exact h
  | covered | refused =>
    simp only [sequentialStep] at hstep
    split at hstep
    · split_ifs at hstep
      cases hstep
      exact h
    · cases hstep
  | refresh save =>
    simp only [sequentialStep] at hstep
    split at hstep
    · cases save <;> cases hstep <;> exact h
    · cases hstep
  | respond status headers challenge disk =>
    simp only [sequentialStep] at hstep
    split at hstep
    · split_ifs at hstep
      cases hstep
      exact h.respond status headers challenge disk
    · cases hstep
  | requestFault error disk =>
    simp only [sequentialStep] at hstep
    split at hstep
    · split_ifs at hstep
      cases hstep
      exact h.transferFailed error disk
    · cases hstep
  | chunk len failure save disk =>
    simp only [sequentialStep] at hstep
    split at hstep
    · cases hstep
      exact h.chunk _ _ len failure save disk
    · cases hstep
  | paused save =>
    simp only [sequentialStep] at hstep
    split at hstep
    · cases hstep
      split_ifs
      · apply Sound.afterSave
        exact h
      · exact h
    · cases hstep
  | bodyFault error disk =>
    simp only [sequentialStep] at hstep
    split at hstep
    · cases hstep
      exact h.bodyFault hok
    · cases hstep

/-- A range request starts at the offset. -/
theorem intent_range {ri : RangeIntent} (h : s.intent cfg = .range ri) :
    ri.range.1 = s.offset := by
  unfold intent at h
  by_cases hranged : (cfg.resuming || decide (0 < s.offset)) = true
  · rw [if_pos hranged] at h
    cases h
    rfl
  · rw [if_neg hranged] at h
    cases h

/-- The resumed prefix fills the file at the start. -/
theorem sound_init (cfg : SequentialConfig) : (sequentialInit cfg).Sound :=
  fun _ hb => .inl hb

end SequentialState

/-- **Sequential output.**  In every run whose retried body faults find the
tracker's frontier within the written prefix, the loop hands over only bytes
that the current temp file holds, and every range request starts within its
written prefix. -/
theorem sequential_output (cfg : SequentialConfig) (s : SequentialState)
    (h : Reach (sequentialStep cfg) (fun s e => s.continuesWritten cfg e)
      (· = sequentialInit cfg) s) :
    (s.phase = .ended → ∀ b < s.offset, s.sink.file.Holds b) ∧
      (s.phase = .top → ∀ ri, s.intent cfg = .range ri → s.sink.file.Filled ri.range.1) := by
  have hsound : s.Sound :=
    h.invariant (fun _ h₀ => h₀ ▸ SequentialState.sound_init cfg)
      fun _ _ _ hs hok hstep => hs.step hok hstep
  refine ⟨fun _ => hsound, fun _ ri hri => ?_⟩
  rw [SequentialState.intent_range hri]
  exact hsound

/-! ### A run that mixes both retries -/

/-- A fresh job for a file of 20 bytes. -/
def freshJob : SequentialConfig where
  checkpoint := none
  totalSize := some 20
  probed := ⟨none, false, none, some 20⟩
  expectedSize := none
  retry := ⟨true, true, true, 3⟩
  durability := .performance
  hasCredentialProvider := false

/-- Every file-system call of a retry succeeds. -/
def diskOk : DiskOutcome := ⟨true, none⟩

/-- The server sends the whole body. -/
def fullBody : SequentialEvent := .respond 200 [("content-length", "20")] none diskOk

/-- The server sends what is missing. -/
def restOfBody : SequentialEvent := .respond 206 [("content-range", "bytes 10-19/20")] none diskOk

/-- A chunk is received, and no checkpoint is due. -/
def received (len : ℕ) : SequentialEvent := .chunk len none .notDue diskOk

/-- The connection is reset. -/
def brokenOff : SequentialEvent := .bodyFault (.connection "reset") diskOk

/-- The body breaks off after ten bytes and the rest is fetched. -/
def resumedBody : List SequentialEvent :=
  [fullBody, received 10, brokenOff, restOfBody, received 10, .endOfBody]

/-- As before, but the request for the rest fails once, and the second file
breaks off after five bytes. -/
def recreatedBody : List SequentialEvent :=
  [fullBody, received 10, brokenOff, .requestFault (.connection "refused") diskOk,
    fullBody, received 5, brokenOff, restOfBody, received 10, .endOfBody]

/-- The body is resumed where it broke off, and the file is whole. -/
theorem sequential_output_resumed_body :
    ∃ s, runEvents (sequentialStep freshJob) (sequentialInit freshJob) resumedBody = some s ∧
      s.offset = 20 ∧ ∀ b < s.offset, s.sink.file.Holds b := by
  have hend : ((runEvents (sequentialStep freshJob) (sequentialInit freshJob) resumedBody).map
      fun s => (s.phase, s.offset)) = some (.ended, 20) := by rfl
  obtain ⟨s, hrun, hs⟩ := Option.map_eq_some_iff.mp hend
  obtain ⟨hphase, hoffset⟩ := Prod.mk.inj hs
  have hreach : Reach (sequentialStep freshJob) (fun s e => s.continuesWritten freshJob e)
      (· = sequentialInit freshJob) s :=
    .of_run (.start rfl) (by decide) hrun
  exact ⟨s, hrun, hoffset, (sequential_output freshJob s hreach).1 hphase⟩

/-- The second file holds the bytes before 5 and from 10 on; byte 7 was only
written into the first, which was deleted. -/
theorem recreated_body_has_hole :
    ¬ ∀ (cfg : SequentialConfig) (s : SequentialState),
      Reach (sequentialStep cfg) (fun _ _ => True) (· = sequentialInit cfg) s →
      (s.phase = .ended → ∀ b < s.offset, s.sink.file.Holds b) ∧
        (s.phase = .top → ∀ ri, s.intent cfg = .range ri → s.sink.file.Filled ri.range.1) := by
  intro h
  have hend : ((runEvents (sequentialStep freshJob) (sequentialInit freshJob) recreatedBody).map
      fun s => (s.phase, s.offset, s.sink.file)) = some (.ended, 20, ⟨0, [(0, 5), (10, 10)]⟩) := by
    rfl
  obtain ⟨s, hrun, hs⟩ := Option.map_eq_some_iff.mp hend
  obtain ⟨hphase, hrest⟩ := Prod.mk.inj hs
  obtain ⟨hoffset, hfile⟩ := Prod.mk.inj hrest
  have hreach : Reach (sequentialStep freshJob) (fun _ _ => True)
      (· = sequentialInit freshJob) s :=
    .of_run (.start rfl) (by decide) hrun
  have hbyte := (h freshJob s hreach).1 hphase 7 (by rw [hoffset]; decide)
  rw [hfile] at hbyte
  exact absurd hbyte (by decide)

end KDown
