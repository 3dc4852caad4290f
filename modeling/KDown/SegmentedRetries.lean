/-
KDown/SegmentedRetries.lean

The retries of a segmented job, counted (job/segmented.rs, control/retry.rs).

A worker counts its failures in a row and starts again from zero when it
completes a lease.  The range that failed goes back to the scheduler meanwhile,
and the next worker to ask gets it.  So what `max_attempts_per_segment` bounds
are the failures of a worker, not those of a range.

* `RetryLog` follows a run: where the request of a worker began and how it was
  answered, how often in a row requests at an offset have failed, and how often a
  worker has failed since its last success.  It is recorded beside the state and
  read by nothing in it.
* `Turn` is what an event of a worker does that is not one of its closing calls;
  the invariant (`Logged`) says that a worker's counter is its count of failures,
  and that the error a worker is about to judge is retryable and comes from the
  status it was answered with.

`segment_retry_bound_iff`: along a run the bound on a range holds exactly as long
as the worker that settles a failure beyond it has itself failed that often.
-/
import KDown.Segmented

namespace KDown

/-! ### The log -/

/-- What is counted beside the run. -/
structure RetryLog where
  /-- Where the request of a worker begins. -/
  requestStart : ℕ → ℕ
  /-- The status the request of a worker was answered with. -/
  answer : ℕ → Option ℕ
  /-- Failures in a row of requests that begin at an offset. -/
  failures : ℕ → ℕ
  /-- Failures of a worker since its last success. -/
  ownFailures : ℕ → ℕ
  /-- The answers of the requests that were tried again. -/
  retried : List (Option ℕ)

namespace RetryLog

/-- Nothing was requested. -/
def new : RetryLog := ⟨fun _ => 0, fun _ => none, fun _ => 0, fun _ => 0, []⟩

/-- A request is answered. -/
def requested (log : RetryLog) (w start : ℕ) (answer : Option ℕ) : RetryLog :=
  { log with
    requestStart := Function.update log.requestStart w start
    answer := Function.update log.answer w answer }

/-- A failure is settled; the range is tried `again` or not. -/
def failed (log : RetryLog) (w : ℕ) (again : Bool) : RetryLog :=
  let start := log.requestStart w
  { log with
    failures := Function.update log.failures start (log.failures start + 1)
    ownFailures := Function.update log.ownFailures w (log.ownFailures w + 1)
    retried := if again then log.answer w :: log.retried else log.retried }

/-- A request has made progress: the counts at its start and of its worker begin
again. -/
def succeeded (log : RetryLog) (w : ℕ) : RetryLog :=
  { log with
    failures := Function.update log.failures (log.requestStart w) 0
    ownFailures := Function.update log.ownFailures w 0 }

/-- A byte that was written is progress at its offset. -/
def progressed (log : RetryLog) (written : IntervalSet) : RetryLog :=
  { log with failures := fun offset => if written.contains offset then 0 else log.failures offset }

variable (cfg : SegmentedConfig)

/-- What an event of a worker adds to the log. -/
def record (log : RetryLog) (s : SegmentedState) (w : ℕ) : WorkerEvent → RetryLog
  | .respond status _ =>
      match s.phases w with
      | .holding lease => log.requested w (s.startFrom w lease) (some status)
      | _ => log
  | .requestFault _ =>
      match s.phases w with
      | .holding lease => log.requested w (s.startFrom w lease) none
      | _ => log
  | .settle _ =>
      match s.phases w with
      | .settling _ (.decide error :: _) =>
          log.failed w (cfg.retry.decide error (s.attempts w)).isSome
      | .settling _ (.complete :: _) => log.succeeded w
      | _ => log
  | _ => log

/-- What an event adds to the log. -/
def recordEvent (log : RetryLog) (s : SegmentedState) : SegmentedEvent → RetryLog
  | .worker w e => log.record cfg s w e
  | _ => log

end RetryLog

/-- A job and the log of its run. -/
structure LoggedJob where
  state : SegmentedState
  log : RetryLog

/-- One event of the job, with the log. -/
def loggedStep (cfg : SegmentedConfig) (q : LoggedJob) (e : SegmentedEvent) : Option LoggedJob :=
  (segmentedStep cfg q.state e).map fun s' =>
    ⟨s', (q.log.recordEvent cfg q.state e).progressed s'.written⟩

/-- The job before its first request, and an empty log. -/
def loggedInit (cfg : SegmentedConfig) : LoggedJob := ⟨segmentedInit cfg, .new⟩

/-- After more failures in a row at an offset than the policy allows the job has
failed. -/
def RetryBound (cfg : SegmentedConfig) (q : LoggedJob) : Prop :=
  ∀ offset, cfg.retry.maxAttemptsPerSegment < q.log.failures offset → q.state.fatal.isSome = true

/-- The worker whose failure an event settles. -/
def LoggedJob.settles (q : LoggedJob) : SegmentedEvent → Option ℕ
  | .worker w (.settle _) =>
      match q.state.phases w with
      | .settling _ (.decide _ :: _) => some w
      | _ => none
  | _ => none

/-- A failure beyond the bound is settled by a worker that has failed as often
itself since its last success, unless the job has failed already. -/
def SettledByItsWorker (cfg : SegmentedConfig) (q : LoggedJob) (e : SegmentedEvent) : Prop :=
  ∀ w ∈ q.settles e, cfg.retry.maxAttemptsPerSegment ≤ q.log.failures (q.log.requestStart w) →
    cfg.retry.maxAttemptsPerSegment ≤ q.log.ownFailures w ∨ q.state.fatal.isSome = true

instance (cfg : SegmentedConfig) (q : LoggedJob) (e : SegmentedEvent) :
    Decidable (SettledByItsWorker cfg q e) :=
  inferInstanceAs (Decidable (∀ w ∈ q.settles e,
    cfg.retry.maxAttemptsPerSegment ≤ q.log.failures (q.log.requestStart w) →
      cfg.retry.maxAttemptsPerSegment ≤ q.log.ownFailures w ∨ q.state.fatal.isSome = true))

/-! ### What a worker may judge -/

/-- The statuses of responses whose bodies are read. -/
def AcceptedStatus (status : ℕ) : Prop := status = 200 ∨ status = 206

/-- An error a worker judges is retryable, and stands for the status the request
was answered with unless a body was read. -/
def JudgedOk (retry : RetryPolicy) (answer : Option ℕ) (e : DownloadError) : Prop :=
  retry.retryable e = true ∧ ∀ status ∈ answer, AcceptedStatus status ∨ e = statusToError status

/-- What a phase says about the answer and the errors still to be judged. -/
def JudgedPhase (retry : RetryPolicy) (answer : Option ℕ) : Phase → Prop
  | .opening _ | .reading _ | .writing _ _ _ | .pipelining _ _ =>
      ∀ status ∈ answer, AcceptedStatus status
  | .draining _ _ again =>
      (∀ status ∈ answer, AcceptedStatus status) ∧ ∀ e ∈ again, retry.retryable e = true
  | .settling _ todo => ∀ e, .decide e ∈ todo → JudgedOk retry answer e
  | _ => True

theorem judgedPhase_ending {retry : RetryPolicy} {answer : Option ℕ} {lease : SegmentLease}
    {ending : WorkerError} (h : ∀ e, ending = .retryable e → JudgedOk retry answer e) :
    JudgedPhase retry answer (.settling lease (errorEnding ending)) := by
  intro e he
  rcases ending with e' | e' | e'
  · simp only [errorEnding, List.mem_cons, reduceCtorEq, false_or, List.not_mem_nil, or_false,
      Settle.decide.injEq] at he
    exact h e (by rw [he])
  · simp [errorEnding] at he
  · simp [errorEnding] at he

theorem retryable_of_failure {retry : RetryPolicy} {error e : DownloadError}
    (h : workerErrorFromFailure retry error = .retryable e) :
    e = error ∧ retry.retryable e = true := by
  unfold workerErrorFromFailure at h
  split at h
  · cases h
  · split_ifs at h with hretry
    cases h
    exact ⟨rfl, hretry⟩

/-- A failure is judged under the policy. -/
theorem judgedPhase_failure {retry : RetryPolicy} {answer : Option ℕ} {lease : SegmentLease}
    {error : DownloadError}
    (h : ∀ status ∈ answer, AcceptedStatus status ∨ error = statusToError status) :
    JudgedPhase retry answer
      (.settling lease (errorEnding (workerErrorFromFailure retry error))) := by
  refine judgedPhase_ending fun e he => ?_
  obtain ⟨rfl, hretry⟩ := retryable_of_failure he
  exact ⟨hretry, h⟩

theorem judgedPhase_fatal {retry : RetryPolicy} {answer : Option ℕ} {lease : SegmentLease}
    {error : DownloadError} :
    JudgedPhase retry answer (.settling lease (errorEnding (.fatal error))) :=
  judgedPhase_ending fun e he => by cases he

/-- A response that is judged an error has a status of its own, or one of the
accepted ones; an accepted response has one of these. -/
theorem transfer_status (intent : TransferIntent) (status : ℕ) (headers : Headers) :
    (∀ e, transfer intent status headers = .error e →
        AcceptedStatus status ∨ e = statusToError status) ∧
      ∀ response, transfer intent status headers = .ok response → AcceptedStatus status := by
  by_cases hstatus : status ≠ 200 ∧ status ≠ 206
  · have herror : transfer intent status headers = .error (statusToError status) := by
      unfold transfer
      exact if_pos hstatus
    rw [herror]
    exact ⟨fun e he => .inr (Except.error.inj he).symm, fun response h => by cases h⟩
  · have haccepted : AcceptedStatus status := by
      rw [AcceptedStatus]
      tauto
    exact ⟨fun _ _ => .inl haccepted, fun _ _ => haccepted⟩

namespace SegmentedState

variable {cfg : SegmentedConfig} {s s' : SegmentedState} {w : ℕ}

/-! ### What an event of a worker does -/

/-- An event that is not one of the closing calls: only the phase of the worker
and the bytes on disk change, and its new phase fits the answer. -/
structure Turn (cfg : SegmentedConfig) (s s' : SegmentedState) (w : ℕ)
    (answer answer' : Option ℕ) : Prop where
  attempts : s'.attempts = s.attempts
  written : ∀ b ∈ s.written, b ∈ s'.written
  others : ∀ v, v ≠ w → s'.phases v = s.phases v
  judged : JudgedPhase cfg.retry answer (s.phases w) → JudgedPhase cfg.retry answer' (s'.phases w)

/-- A new phase of the worker, possibly after a change that is not seen here. -/
theorem Turn.setPhase {t : SegmentedState} {p : Phase} {answer answer' : Option ℕ}
    (hattempts : t.attempts = s.attempts) (hphases : t.phases = s.phases)
    (hwritten : ∀ b ∈ s.written, b ∈ t.written)
    (hp : JudgedPhase cfg.retry answer (s.phases w) → JudgedPhase cfg.retry answer' p) :
    Turn cfg s (t.setPhase w p) w answer answer' where
  attempts := hattempts
  written := hwritten
  others v hv := by
    show Function.update t.phases w p v = s.phases v
    rw [Function.update_of_ne hv, hphases]
  judged h := by
    show JudgedPhase cfg.retry answer' (Function.update t.phases w p w)
    rw [Function.update_self]
    exact hp h

theorem Turn.of_setPhase {p : Phase} {answer answer' : Option ℕ}
    (h : some (s.setPhase w p) = some s')
    (hp : JudgedPhase cfg.retry answer (s.phases w) → JudgedPhase cfg.retry answer' p) :
    Turn cfg s s' w answer answer' := by
  rw [← Option.some.inj h]
  exact .setPhase rfl rfl (fun _ hb => hb) hp

/-- A new phase that is judged by what the old one was. -/
theorem Turn.of_phase {p q : Phase} {answer answer' : Option ℕ} (eq : s.phases w = q)
    (h : some (s.setPhase w p) = some s')
    (hp : JudgedPhase cfg.retry answer q → JudgedPhase cfg.retry answer' p) :
    Turn cfg s s' w answer answer' :=
  .of_setPhase h fun hq => hp (eq ▸ hq)

variable {answer : Option ℕ}

theorem bodyFault_turn {e : DownloadError} (h : s.bodyFault cfg w e = some s') :
    Turn cfg s s' w answer answer := by
  unfold bodyFault at h
  split at h
  · rename_i t ep
    exact .of_phase ep h fun hp => judgedPhase_failure fun status hst => .inl (hp status hst)
  · rename_i t f ep
    split at h
    · rename_i e' hretry
      refine .of_phase ep h fun hp => ⟨hp, fun e he => ?_⟩
      cases he
      exact (retryable_of_failure hretry).2
    · rename_i hretry
      refine .of_setPhase h fun _ => judgedPhase_ending fun e he => ?_
      exact absurd he (hretry e)
  · cases h

/-- A chunk leaves the answer of the worker as it is. -/
theorem receive_turn {len : ℕ} (h : s.receive cfg w len = some s') :
    Turn cfg s s' w answer answer := by
  unfold receive at h
  split at h
  · rename_i t ep
    simp only at h
    split_ifs at h
    · exact bodyFault_turn h
    · exact .of_setPhase h fun _ => trivial
    · exact .of_phase ep h id
  · rename_i t f ep
    simp only at h
    split_ifs at h
    · exact bodyFault_turn h
    · exact .of_phase ep h fun hp => ⟨hp, fun e he => by cases he⟩
    · rw [← Option.some.inj h]
      refine .setPhase rfl rfl (fun _ hb => hb) fun hp => ?_
      rw [ep] at hp
      exact ⟨hp, fun e he => by cases he⟩
    · rw [← Option.some.inj h]
      refine .setPhase rfl rfl (fun _ hb => hb) fun hp => ?_
      rw [ep] at hp
      exact hp
  · cases h

theorem writeAck_turn {failure : Option DownloadError} (h : s.writeAck w failure = some s') :
    Turn cfg s s' w answer answer := by
  unfold writeAck at h
  split at h
  · rename_i t owned truncated ep
    split at h
    · exact .of_setPhase h fun _ => judgedPhase_fatal
    · rw [← Option.some.inj h]
      refine .setPhase rfl rfl (fun _ hb => IntervalSet.mem_insert.mpr (.inl hb)) fun hp => ?_
      rw [ep] at hp
      split_ifs
      · trivial
      · exact hp
  · cases h

theorem execute_turn {index : ℕ} {outcome : WriteOutcome}
    (h : s.execute w index outcome = some s') : Turn cfg s s' w answer answer := by
  unfold execute at h
  split at h
  · cases h
  · rw [← Option.some.inj h]
    refine ⟨rfl, fun b hb => ?_, fun _ _ => rfl, fun hp => hp⟩
    show b ∈ if _ then _ else _
    split_ifs
    · exact IntervalSet.mem_insert.mpr (.inl hb)
    · exact hb

theorem settleCompletion_turn {t : Transfer} {f : LeaseFrontier} {back : LeaseFrontier → Phase}
    {q : Phase} (h : s.settleCompletion w t f back = some s') (eq : s.phases w = q)
    (hback : ∀ f', JudgedPhase cfg.retry answer q → JudgedPhase cfg.retry answer (back f')) :
    Turn cfg s s' w answer answer := by
  unfold settleCompletion at h
  split at h
  · cases h
  · simp only at h
    split at h <;> rw [← Option.some.inj h]
    · exact .setPhase rfl rfl (fun _ hb => hb) fun hp => hback _ (eq ▸ hp)
    · exact .setPhase rfl rfl (fun _ hb => hb) fun _ => judgedPhase_fatal
    · exact .setPhase rfl rfl (fun _ hb => hb) fun hp => hback _ (eq ▸ hp)

theorem drained_turn {t : Transfer} {f : LeaseFrontier} {again : Option DownloadError}
    (ep : s.phases w = .draining t f again) (h : s.drained w t f again = some s') :
    Turn cfg s s' w answer answer := by
  unfold drained at h
  split at h
  · cases h
  rcases again with - | e
  · simp only at h
    split_ifs at h
    · exact .of_setPhase h fun _ => judgedPhase_fatal
    · exact .of_setPhase h fun _ => trivial
  · refine .of_phase ep h fun hp => judgedPhase_ending fun e' he => ?_
    cases he
    exact ⟨hp.2 e rfl, fun status hst => .inl (hp.1 status hst)⟩

theorem refresh_turn (h : s.workerStep cfg w .refresh = some s') :
    Turn cfg s s' w answer answer := by
  simp only [workerStep] at h
  split at h
  · rename_i t ep
    refine .of_phase ep h fun hp => ?_
    split_ifs <;> exact hp
  · rename_i t ep
    exact .of_phase ep h id
  · rename_i t f ep
    exact .of_phase ep h id
  · cases h

/-- A response is logged as the answer, and the new phase is judged by it. -/
theorem respond_turn (log : RetryLog) {status : ℕ} {headers : Headers}
    (h : s.workerStep cfg w (.respond status headers) = some s') :
    Turn cfg s s' w answer ((log.record cfg s w (.respond status headers)).answer w) := by
  simp only [workerStep] at h
  split at h
  · rename_i lease ep
    have hanswer : (log.record cfg s w (.respond status headers)).answer w = some status := by
      simp only [RetryLog.record, ep]
      exact Function.update_self w (some status) log.answer
    rw [hanswer, ← Option.some.inj h]
    unfold respond
    simp only
    split
    · rename_i response hok
      refine .setPhase rfl rfl (fun _ hb => hb) fun _ status' hst => ?_
      cases hst
      exact (transfer_status _ _ _).2 response hok
    · rename_i error herr
      refine .setPhase rfl rfl (fun _ hb => hb) fun _ => judgedPhase_failure fun status' hst => ?_
      cases hst
      exact (transfer_status _ _ _).1 error herr
  · cases h

/-- A request that fails has no answer. -/
theorem requestFault_turn (log : RetryLog) {error : DownloadError}
    (h : s.workerStep cfg w (.requestFault error) = some s') :
    Turn cfg s s' w answer ((log.record cfg s w (.requestFault error)).answer w) := by
  simp only [workerStep] at h
  split at h
  · rename_i lease ep
    have hanswer : (log.record cfg s w (.requestFault error)).answer w = none := by
      simp only [RetryLog.record, ep]
      exact Function.update_self w none log.answer
    rw [hanswer]
    exact .of_setPhase h fun _ => judgedPhase_failure fun status hst => by cases hst
  · cases h

/-- Events outside the closing calls are turns, and the log keeps the answer. -/
theorem workerStep_turn (log : RetryLog) {e : WorkerEvent} (he : ∀ now, e ≠ .settle now)
    (h : s.workerStep cfg w e = some s') :
    Turn cfg s s' w (log.answer w) ((log.record cfg s w e).answer w) := by
  cases e with
  | settle now => exact absurd rfl (he now)
  | acquire readyDivisor now =>
    simp only [workerStep] at h
    split at h
    · split at h
      · rw [← Option.some.inj h]
        exact .setPhase rfl rfl (fun _ hb => hb) fun _ => trivial
      · rw [← Option.some.inj h]
        exact ⟨rfl, fun _ hb => hb, fun _ _ => rfl, fun hp => hp⟩
    · cases h
  | split leaseId now =>
    simp only [workerStep] at h
    split at h
    · split at h
      · cases h
      · split at h
        · rw [← Option.some.inj h]
          exact .setPhase rfl rfl (fun _ hb => hb) fun _ => trivial
        · cases h
    · cases h
  | exit =>
    simp only [workerStep] at h
    split at h
    · split_ifs at h
      exact .of_setPhase h fun _ => trivial
    · cases h
  | respond status headers => exact respond_turn log h
  | requestFault error => exact requestFault_turn log h
  | refresh => exact refresh_turn h
  | receive len => exact receive_turn h
  | writeAck failure => exact writeAck_turn h
  | execute index outcome => exact execute_turn h
  | settleCompletion =>
    simp only [workerStep] at h
    split at h
    · rename_i t f ep
      exact settleCompletion_turn h ep fun _ hp => hp
    · rename_i t f again ep
      exact settleCompletion_turn h ep fun _ hp => hp
    · cases h
  | endOfBody =>
    simp only [workerStep] at h
    split at h
    · exact .of_setPhase h fun _ => trivial
    · rename_i t f ep
      exact .of_phase ep h fun hp => ⟨hp, fun e he => by cases he⟩
    · cases h
  | bodyFault e => exact bodyFault_turn h
  | drained =>
    simp only [workerStep] at h
    split at h
    · rename_i t f again ep
      exact drained_turn ep h
    · cases h
  | abort =>
    simp only [workerStep] at h
    split_ifs at h
    split at h
    · exact .of_setPhase h fun _ => judgedPhase_fatal
    · exact .of_setPhase h fun _ => judgedPhase_fatal
    · exact .of_setPhase h fun _ => judgedPhase_fatal
    · cases h
  | finish =>
    simp only [workerStep] at h
    split at h
    · refine .of_setPhase h fun _ e he => ?_
      simp [successEnding] at he
    · cases h

/-! ### What a closing call does -/

theorem performSettle_written (lease : SegmentLease) (now : ℕ) (call : Settle) :
    (s.performSettle cfg w lease now call).written = s.written := by
  cases call with
  | decide e => simp only [performSettle]; split <;> rfl
  | _ => rfl

/-- The counters behind a closing call. -/
def attemptsAfter (cfg : SegmentedConfig) (s : SegmentedState) (w : ℕ) : Settle → ℕ → ℕ
  | .complete => Function.update s.attempts w 0
  | .decide e =>
      match cfg.retry.decide e (s.attempts w) with
      | some next => Function.update s.attempts w next
      | none => s.attempts
  | _ => s.attempts

theorem performSettle_attempts (lease : SegmentLease) (now : ℕ) (call : Settle) :
    (s.performSettle cfg w lease now call).attempts = s.attemptsAfter cfg w call := by
  cases call with
  | decide e =>
    simp only [performSettle, attemptsAfter]
    rcases cfg.retry.decide e (s.attempts w) with - | next <;> rfl
  | _ => rfl

/-- One closing call of a worker. -/
structure Call (cfg : SegmentedConfig) (s s' : SegmentedState) (w : ℕ) (lease : SegmentLease)
    (call : Settle) (todo : List Settle) : Prop where
  phase : s.phases w = .settling lease (call :: todo)
  attempts : s'.attempts = s.attemptsAfter cfg w call
  written : s'.written = s.written
  fatal : s'.fatal = s.fatal.or (s.installedBy cfg w call)
  others : ∀ v, v ≠ w → s'.phases v = s.phases v
  judged : ∀ retry answer, JudgedPhase retry answer (s.phases w) →
    JudgedPhase retry answer (s'.phases w)

/-- A settlement makes one call of its list. -/
theorem workerStep_call {now : ℕ} (h : s.workerStep cfg w (.settle now) = some s') :
    ∃ lease call todo, Call cfg s s' w lease call todo := by
  simp only [workerStep] at h
  split at h
  · rename_i lease call todo ep
    refine ⟨lease, call, todo, ep, ?_, ?_, ?_, fun v hv => ?_, fun retry answer hp => ?_⟩ <;>
      rw [← Option.some.inj h]
    · exact performSettle_attempts lease now call
    · exact performSettle_written lease now call
    · exact (s.performSettle_fatal cfg w lease now call).1
    · simp only [setPhase]
      rw [Function.update_of_ne hv, performSettle_phases]
    · rw [ep] at hp
      simp only [setPhase]
      rw [Function.update_self]
      split_ifs
      · cases call with
        | decide e => simp only [afterSettle]; split_ifs <;> trivial
        | _ => trivial
      · exact fun e he => hp e (List.mem_cons_of_mem _ he)
  · cases h

end SegmentedState

/-! ### The log follows the counters -/

theorem decide_eq_some {p : RetryPolicy} {e : DownloadError} {attempt next : ℕ}
    (h : p.decide e attempt = some next) :
    next = attempt + 1 ∧ p.retryable e = true ∧ attempt < p.maxAttemptsPerSegment := by
  unfold RetryPolicy.decide at h
  split at h
  · cases h
  · split_ifs at h with hretry hmax
    cases h
    exact ⟨rfl, by simpa using hretry, not_le.mp hmax⟩

/-- A retryable error is tried again while attempts are left. -/
theorem decide_of_retryable {p : RetryPolicy} {e : DownloadError}
    (h : p.retryable e = true) (attempt : ℕ) :
    p.decide e attempt = if p.maxAttemptsPerSegment ≤ attempt then none else some (attempt + 1) := by
  unfold RetryPolicy.decide
  split
  · cases h
  · rw [h]
    rfl

/-- The counter of a worker is its count of failures, and what it is about to
judge is retryable. -/
structure Logged (cfg : SegmentedConfig) (q : LoggedJob) : Prop where
  counted : ∀ w, q.log.ownFailures w = q.state.attempts w ∨ q.state.fatal.isSome = true
  progressed : ∀ b ∈ q.state.written, q.log.failures b = 0
  judged : ∀ w, JudgedPhase cfg.retry (q.log.answer w) (q.state.phases w)

namespace Logged

variable {cfg : SegmentedConfig} {q q' : LoggedJob} {w : ℕ}

theorem fatal_or {fatal more : Option DownloadError} (h : fatal.isSome = true) :
    (fatal.or more).isSome = true := by
  rcases fatal with - | e
  · cases h
  · rfl

theorem record_answer_of_ne {log : RetryLog} {s : SegmentedState} {e : WorkerEvent} {v : ℕ}
    (hv : v ≠ w) : (log.record cfg s w e).answer v = log.answer v := by
  unfold RetryLog.record
  split
  · split
    · exact Function.update_of_ne hv _ _
    · rfl
  · split
    · exact Function.update_of_ne hv _ _
    · rfl
  · split <;> rfl
  · rfl

/-- Only closing calls change the counts. -/
theorem record_counts {log : RetryLog} {s : SegmentedState} {e : WorkerEvent}
    (he : ∀ now, e ≠ .settle now) :
    (log.record cfg s w e).ownFailures = log.ownFailures ∧
      (log.record cfg s w e).failures = log.failures ∧
      (log.record cfg s w e).retried = log.retried := by
  unfold RetryLog.record
  split
  · split <;> exact ⟨rfl, rfl, rfl⟩
  · split <;> exact ⟨rfl, rfl, rfl⟩
  · exact absurd rfl (he _)
  · exact ⟨rfl, rfl, rfl⟩

theorem record_settle_answer {log : RetryLog} {s : SegmentedState} {now : ℕ} :
    (log.record cfg s w (.settle now)).answer = log.answer := by
  simp only [RetryLog.record]
  split <;> rfl

/-- Progress sets the counts of what was written to zero. -/
theorem progressed_written (log : RetryLog) {written : IntervalSet} {b : ℕ} (hb : b ∈ written) :
    (log.progressed written).failures b = 0 :=
  if_pos (IntervalSet.contains_eq_true.mpr hb)

theorem failed_failures (log : RetryLog) (again : Bool) (offset : ℕ) :
    (log.failed w again).failures offset =
      if offset = log.requestStart w then log.failures (log.requestStart w) + 1
      else log.failures offset := Function.update_apply ..

theorem progressed_le (log : RetryLog) (written : IntervalSet) (b : ℕ) :
    (log.progressed written).failures b ≤ log.failures b := by
  show (if _ then _ else _) ≤ _
  split_ifs
  · exact Nat.zero_le _
  · exact le_rfl

theorem turn {e : WorkerEvent} (h : Logged cfg q) (he : ∀ now, e ≠ .settle now)
    {s' : SegmentedState} (hs : q.state.workerStep cfg w e = some s') :
    Logged cfg ⟨s', (q.log.record cfg q.state w e).progressed s'.written⟩ := by
  have hturn := SegmentedState.workerStep_turn q.log he hs
  refine ⟨fun v => ?_, fun b hb => progressed_written _ hb, fun v => ?_⟩
  · show (q.log.record cfg q.state w e).ownFailures v = s'.attempts v ∨ s'.fatal.isSome = true
    rw [(record_counts he).1, hturn.attempts]
    refine (h.counted v).imp id fun hfatal => ?_
    rw [(SegmentedState.workerStep_frame cfg hs).fatal]
    exact fatal_or hfatal
  · show JudgedPhase cfg.retry ((q.log.record cfg q.state w e).answer v) (s'.phases v)
    by_cases hv : v = w
    · rw [hv]
      exact hturn.judged (h.judged w)
    · rw [record_answer_of_ne hv, hturn.others v hv]
      exact h.judged v

/-- Each answer of a settlement is in the log. -/
theorem settle {now : ℕ} (h : Logged cfg q) {s' : SegmentedState}
    (hs : q.state.workerStep cfg w (.settle now) = some s') :
    Logged cfg ⟨s', (q.log.record cfg q.state w (.settle now)).progressed s'.written⟩ := by
  obtain ⟨lease, call, todo, hcall⟩ := SegmentedState.workerStep_call hs
  refine ⟨fun v => ?_, fun b hb => progressed_written _ hb, fun v => ?_⟩
  · show (q.log.record cfg q.state w (.settle now)).ownFailures v = s'.attempts v ∨
      s'.fatal.isSome = true
    rw [hcall.attempts, hcall.fatal]
    rcases h.counted v with hv | hfatal
    · cases call with
      | decide e =>
        simp only [RetryLog.record, hcall.phase, RetryLog.failed, SegmentedState.attemptsAfter,
          SegmentedState.installedBy]
        rcases hdecide : cfg.retry.decide e (q.state.attempts w) with - | next
        · -- given up: the failure is installed
          right
          rcases q.state.fatal <;> rfl
        · left
          obtain ⟨rfl, -⟩ := decide_eq_some hdecide
          show _ = Function.update q.state.attempts w (q.state.attempts w + 1) v
          by_cases hvw : v = w
          · rw [hvw] at hv ⊢
            rw [Function.update_self, Function.update_self, hv]
          · rw [Function.update_of_ne hvw, Function.update_of_ne hvw, hv]
      | complete =>
        left
        simp only [RetryLog.record, hcall.phase, RetryLog.succeeded, SegmentedState.attemptsAfter]
        by_cases hvw : v = w
        · rw [hvw, Function.update_self, Function.update_self]
        · rw [Function.update_of_ne hvw, Function.update_of_ne hvw, hv]
      | _ =>
        left
        simp only [RetryLog.record, hcall.phase, SegmentedState.attemptsAfter]
        exact hv
    · exact .inr (fatal_or hfatal)
  · show JudgedPhase cfg.retry ((q.log.record cfg q.state w (.settle now)).answer v) (s'.phases v)
    rw [record_settle_answer]
    by_cases hv : v = w
    · rw [hv]
      exact hcall.judged _ _ (h.judged w)
    · rw [hcall.others v hv]
      exact h.judged v

theorem of_init : Logged cfg (loggedInit cfg) where
  counted _ := .inl rfl
  progressed _ _ := rfl
  judged _ := trivial

/-- **Every step keeps the log in agreement with the job.** -/
theorem step {e : SegmentedEvent} (h : Logged cfg q) (hs : loggedStep cfg q e = some q') :
    Logged cfg q' := by
  obtain ⟨s', hnext, rfl⟩ := Option.map_eq_some_iff.mp hs
  cases e with
  | worker w e =>
    simp only [segmentedStep] at hnext
    split_ifs at hnext
    by_cases he : ∃ now, e = .settle now
    · obtain ⟨now, rfl⟩ := he
      exact h.settle hnext
    · exact h.turn (fun now heq => he ⟨now, heq⟩) hnext
  | reconcile =>
    cases hnext
    exact ⟨h.counted, fun b hb => progressed_written _ hb, h.judged⟩
  | cancel =>
    cases hnext
    exact ⟨h.counted, fun b hb => progressed_written _ hb, h.judged⟩

/-! ### The bound on a range -/

/-- A failed job stays failed. -/
theorem fatal_stays {e : SegmentedEvent} (hs : loggedStep cfg q e = some q')
    (hfatal : q.state.fatal.isSome = true) : q'.state.fatal.isSome = true := by
  obtain ⟨s', hnext, rfl⟩ := Option.map_eq_some_iff.mp hs
  cases e with
  | worker w e =>
    simp only [segmentedStep] at hnext
    split_ifs at hnext
    rw [(SegmentedState.workerStep_frame cfg hnext).fatal]
    exact fatal_or hfatal
  | reconcile => exact Option.some.inj hnext ▸ hfatal
  | cancel => exact Option.some.inj hnext ▸ hfatal

/-- Where no failure is settled no count grows. -/
theorem failures_le {e : SegmentedEvent} (hnone : q.settles e = none)
    (hs : loggedStep cfg q e = some q') (offset : ℕ) :
    q'.log.failures offset ≤ q.log.failures offset := by
  obtain ⟨s', -, rfl⟩ := Option.map_eq_some_iff.mp hs
  refine (progressed_le _ _ _).trans ?_
  cases e with
  | worker w e =>
    by_cases he : ∃ now, e = .settle now
    · obtain ⟨now, rfl⟩ := he
      simp only [LoggedJob.settles] at hnone
      simp only [RetryLog.recordEvent, RetryLog.record]
      split at hnone
      · cases hnone
      · rename_i hother
        split
        · rename_i ep
          exact absurd ep (hother _ _ _)
        · simp only [RetryLog.succeeded]
          by_cases ho : offset = q.log.requestStart w
          · rw [ho, Function.update_self]
            exact Nat.zero_le _
          · rw [Function.update_of_ne ho]
        · exact le_rfl
    · simp only [RetryLog.recordEvent]
      rw [(record_counts fun now heq => he ⟨now, heq⟩).2.1]
  | reconcile => exact le_rfl
  | cancel => exact le_rfl

theorem settles_eq_some {e : SegmentedEvent} (h : q.settles e = some w) :
    ∃ now lease error todo, e = .worker w (.settle now) ∧
      q.state.phases w = .settling lease (.decide error :: todo) := by
  unfold LoggedJob.settles at h
  split at h
  · split at h
    · rename_i lease error todo ep
      cases h
      exact ⟨_, lease, error, todo, rfl, ep⟩
    · cases h
  · cases h

/-- **One step loses the bound exactly by settling a failure beyond it with a
worker that has not failed as often.** -/
theorem bound_step {e : SegmentedEvent} (h : Logged cfg q) (hbound : RetryBound cfg q)
    (hs : loggedStep cfg q e = some q') : RetryBound cfg q' ↔ SettledByItsWorker cfg q e := by
  by_cases hfatal : q.state.fatal.isSome = true
  · exact ⟨fun _ _ _ _ => .inr hfatal, fun _ _ _ => fatal_stays hs hfatal⟩
  have hsmall : ∀ offset, q.log.failures offset ≤ cfg.retry.maxAttemptsPerSegment := by
    intro offset
    by_contra hover
    exact hfatal (hbound offset (not_le.mp hover))
  rcases hsettles : q.settles e with - | w
  · refine ⟨fun _ w hw => ?_, fun _ offset hover => ?_⟩
    · rw [hsettles] at hw
      cases hw
    · have hle := failures_le hsettles hs offset
      exact absurd (hle.trans (hsmall offset)) (not_le.mpr hover)
  obtain ⟨now, lease, error, todo, rfl, ep⟩ := settles_eq_some hsettles
  have hcounted : q.log.ownFailures w = q.state.attempts w := (h.counted w).resolve_right hfatal
  have hjudged := h.judged w
  rw [ep] at hjudged
  have hdecide := decide_of_retryable (hjudged error List.mem_cons_self).1 (q.state.attempts w)
  obtain ⟨s', hnext, rfl⟩ := Option.map_eq_some_iff.mp hs
  simp only [segmentedStep] at hnext
  split_ifs at hnext
  obtain ⟨lease', call, todo', hcall⟩ := SegmentedState.workerStep_call hnext
  have hphase := hcall.phase
  rw [ep] at hphase
  cases hphase
  have hcond : SettledByItsWorker cfg q (.worker w (.settle now)) ↔
      (cfg.retry.maxAttemptsPerSegment ≤ q.log.failures (q.log.requestStart w) →
        cfg.retry.maxAttemptsPerSegment ≤ q.state.attempts w) := by
    simp only [SettledByItsWorker, hsettles, Option.mem_def, Option.some.injEq, forall_eq', hcounted,
      hfatal, Bool.false_eq_true, or_false]
  rw [hcond]
  by_cases hspent : cfg.retry.maxAttemptsPerSegment ≤ q.state.attempts w
  · -- the attempts of the worker are used up, and the failure is installed
    refine ⟨fun _ _ => hspent, fun _ _ _ => ?_⟩
    show s'.fatal.isSome = true
    rw [hcall.fatal, SegmentedState.installedBy, hdecide, if_pos hspent]
    rcases q.state.fatal <;> rfl
  have hrecord : q.log.recordEvent cfg q.state (.worker w (.settle now)) = q.log.failed w true := by
    simp only [RetryLog.recordEvent, RetryLog.record, ep, hdecide, if_neg hspent, Option.isSome_some]
  have hnofatal : s'.fatal = q.state.fatal := by
    rw [hcall.fatal, SegmentedState.installedBy, hdecide, if_neg hspent]
    exact Option.or_none
  by_cases hfull : cfg.retry.maxAttemptsPerSegment ≤ q.log.failures (q.log.requestStart w)
  · refine ⟨fun hbound' => ?_, fun hcond => absurd (hcond hfull) hspent⟩
    exfalso
    -- the request begins where nothing was written, so the failure counts
    have hfresh : ¬ s'.written.contains (q.log.requestStart w) = true := by
      intro hwritten
      rw [hcall.written, IntervalSet.contains_eq_true] at hwritten
      rw [h.progressed _ hwritten] at hfull
      omega
    have hover := hbound' (q.log.requestStart w) ?_
    · rw [hnofatal] at hover
      exact hfatal hover
    · rw [hrecord]
      show _ < if s'.written.contains _ then 0 else (q.log.failed w true).failures _
      rw [if_neg hfresh, failed_failures, if_pos rfl]
      omega
  · refine ⟨fun _ hfull' => absurd hfull' hfull, fun _ offset hover => ?_⟩
    exfalso
    rw [hrecord] at hover
    have hle := progressed_le (q.log.failed w true) s'.written offset
    have hfailed : (q.log.failed w true).failures offset ≤ cfg.retry.maxAttemptsPerSegment := by
      rw [failed_failures]
      split_ifs
      · omega
      · exact hsmall offset
    exact absurd (hle.trans hfailed) (not_le.mpr hover)

end Logged

/-- **Retries of a segment.**  Along every run the job has failed whenever
requests at an offset failed more often in a row than the policy allows, if and
only if every failure beyond that number is settled by a worker that has failed
as often itself. -/
theorem segment_retry_bound_iff (cfg : SegmentedConfig) (es : List SegmentedEvent) {q : LoggedJob}
    (hrun : runEvents (loggedStep cfg) (loggedInit cfg) es = some q) :
    (∀ es' q', es' <+: es → runEvents (loggedStep cfg) (loggedInit cfg) es' = some q' →
        RetryBound cfg q') ↔
      runOk (loggedStep cfg) (SettledByItsWorker cfg) (loggedInit cfg) es :=
  forall_isPrefix_iff_runOk (I := Logged cfg) (fun _ _ _ h hs => h.step hs)
    (fun _ _ _ h hbound hs => h.bound_step hbound hs) Logged.of_init
    (fun _ h => absurd h (Nat.not_lt_zero _)) hrun

/-- A 100-byte job with two workers and one retry. -/
def twoWorkers : SegmentedConfig where
  totalSize := 100
  validators := ⟨none, false, none, some 100⟩
  admitted := []
  policy := .new 1 100
  retry := ⟨true, true, true, 1⟩
  workers := 2
  pipelined := false

/-- A worker takes the first range, its request breaks off, and it settles. -/
def brokenRequest (w : ℕ) : List SegmentedEvent :=
  [SegmentedEvent.worker w (.acquire 0 0), .worker w (.requestFault (.connection "reset"))] ++
    List.replicate 4 (SegmentedEvent.worker w (.settle 0))

/-- One worker fails twice, within its bound. -/
theorem segment_retry_bound_one_worker :
    ∃ q, runEvents (loggedStep twoWorkers) (loggedInit twoWorkers)
        (brokenRequest 0 ++ brokenRequest 0) = some q ∧ RetryBound twoWorkers q := by
  obtain ⟨q, hrun⟩ := Option.isSome_iff_exists.mp
    (show (runEvents (loggedStep twoWorkers) (loggedInit twoWorkers)
      (brokenRequest 0 ++ brokenRequest 0)).isSome from by decide)
  have hok : runOk (loggedStep twoWorkers) (SettledByItsWorker twoWorkers) (loggedInit twoWorkers)
      (brokenRequest 0 ++ brokenRequest 0) := by decide
  exact ⟨q, hrun, (segment_retry_bound_iff twoWorkers _ hrun).mpr hok _ q (List.prefix_refl _) hrun⟩

/-- Two requests at offset zero fail, each with a worker of its own, and the job
goes on. -/
theorem two_workers_exceed_bound :
    ¬ ∀ (cfg : SegmentedConfig) (es : List SegmentedEvent) (q : LoggedJob),
      runEvents (loggedStep cfg) (loggedInit cfg) es = some q → RetryBound cfg q := by
  intro h
  have hend : ((runEvents (loggedStep twoWorkers) (loggedInit twoWorkers)
      (brokenRequest 0 ++ brokenRequest 1)).map fun q =>
        (q.log.failures 0, q.state.fatal.isSome)) = some (2, false) := by decide
  obtain ⟨q, hrun, hq⟩ := Option.map_eq_some_iff.mp hend
  obtain ⟨hfailures, hfatal⟩ := Prod.mk.inj hq
  have hbound := h twoWorkers _ q hrun 0 (by rw [hfailures]; decide)
  rw [hfatal] at hbound
  cases hbound

end KDown
