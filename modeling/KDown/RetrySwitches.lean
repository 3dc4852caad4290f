/-
KDown/RetrySwitches.lean

The switches of the retry policy, in both transfer modes (control/retry.rs,
http/execution.rs, error.rs).

A response that is not 200 or 206 becomes an error first (`statusToError`), and
the classifier looks at the error later.  429 and 5xx have an error of their own
that a switch acts on, and the statuses that must not be retried have one that is
never retryable.  408 becomes a protocol error without its status: the classifier
asks for the status of the error, gets none, and retries like after a broken
stream, whatever `retry_408` says (`retryable_statusToError_iff`).

* `LoggedLoop` follows a sequential run as `LoggedJob` follows a segmented one.
* `retry_switches_honoured`: in both modes every request that is tried again was
  answered with a status the policy allows to retry, in every run without a 408
  against the switch.
-/
import KDown.SegmentedRetries
import KDown.Sequential

namespace KDown

/-! ### Statuses and switches -/

/-- What the policy says about a request that is tried again after such an
answer. -/
structure RetryPolicy.Honours (p : RetryPolicy) (status : ℕ) : Prop where
  timeout : status = 408 → p.retry408 = true
  rateLimited : status = 429 → p.retry429 = true
  server : 500 ≤ status ∧ status ≤ 599 → p.retry5xx = true
  never : status ∉ [401, 403, 404, 407, 410]

/-- **The error of a status is retryable when the switches allow it**; the
switch for 408 is not among them. -/
theorem retryable_statusToError_iff {p : RetryPolicy} {status : ℕ} :
    p.retryable (statusToError status) = true ↔
      (status = 429 → p.retry429 = true) ∧ (500 ≤ status ∧ status ≤ 599 → p.retry5xx = true) ∧
        status ∉ [401, 403, 404, 407, 410] := by
  have hnever : status ∉ [401, 403, 404, 407, 410] ↔
      status ≠ 401 ∧ status ≠ 403 ∧ status ≠ 404 ∧ status ≠ 407 ∧ status ≠ 410 := by simp
  rw [hnever]
  unfold statusToError
  split_ifs with hgone hauth hforbidden hproxy htimeout hlimited hserver
  · constructor
    · intro h
      cases h
    · rintro ⟨-, -, hnone⟩
      omega
  · constructor
    · intro h
      cases h
    · rintro ⟨-, -, hnone⟩
      omega
  · constructor
    · intro h
      cases h
    · rintro ⟨-, -, hnone⟩
      omega
  · constructor
    · intro h
      cases h
    · rintro ⟨-, -, hnone⟩
      omega
  · simp only [RetryPolicy.retryable, DownloadError.httpStatus]
    simp [htimeout]
  · simp only [RetryPolicy.retryable]
    simp [hlimited]
  · simp only [RetryPolicy.retryable]
    constructor
    · exact fun h => ⟨fun heq => absurd heq hlimited, fun _ => h, by omega⟩
    · exact fun h => h.2.1 hserver
  · simp only [RetryPolicy.retryable, DownloadError.httpStatus]
    constructor
    · exact fun _ => ⟨fun heq => absurd heq hlimited, fun hin => absurd hin hserver, by omega⟩
    · simp

/-- No answer goes against the switch for 408. -/
def TimeoutsAllowed (p : RetryPolicy) (answered : Option ℕ) : Prop :=
  ∀ status ∈ answered, status = 408 → p.retry408 = true

instance (p : RetryPolicy) (answered : Option ℕ) : Decidable (TimeoutsAllowed p answered) :=
  inferInstanceAs (Decidable (∀ status ∈ answered, status = 408 → p.retry408 = true))

theorem honours_of_retryable {p : RetryPolicy} {status : ℕ} {e : DownloadError}
    (hretry : p.retryable e = true) (hstatus : AcceptedStatus status ∨ e = statusToError status)
    (hallowed : status = 408 → p.retry408 = true) : p.Honours status := by
  rcases hstatus with haccepted | rfl
  · rcases haccepted with rfl | rfl <;>
      exact ⟨fun h => absurd h (by decide), fun h => absurd h (by decide),
        fun h => absurd h (by decide), by decide⟩
  · obtain ⟨hlimited, hserver, hnever⟩ := retryable_statusToError_iff.mp hretry
    exact ⟨hallowed, hlimited, hserver, hnever⟩

/-! ### Segmented runs -/

/-- The status of a response. -/
def SegmentedEvent.answered : SegmentedEvent → Option ℕ
  | .worker _ (.respond status _) => some status
  | _ => none

/-- The answers a worker has and the requests that were tried again. -/
structure LoggedJob.Honoured (cfg : SegmentedConfig) (q : LoggedJob) : Prop where
  logged : Logged cfg q
  answers : ∀ w, TimeoutsAllowed cfg.retry (q.log.answer w)
  retried : ∀ status, some status ∈ q.log.retried → cfg.retry.Honours status

namespace LoggedJob.Honoured

variable {cfg : SegmentedConfig} {q q' : LoggedJob} {w v : ℕ}

/-- An answer in the log is an old one, or the one just given. -/
theorem answer_cases {log : RetryLog} {s : SegmentedState} {e : WorkerEvent} {status : ℕ}
    (h : status ∈ (log.record cfg s w e).answer v) :
    status ∈ log.answer v ∨ status ∈ (SegmentedEvent.worker w e).answered := by
  by_cases hv : v = w
  · subst hv
    unfold RetryLog.record at h
    split at h
    · split at h
      · right
        simp only [RetryLog.requested, Function.update_self] at h
        exact h
      · exact .inl h
    · split at h
      · simp only [RetryLog.requested, Function.update_self] at h
        cases h
      · exact .inl h
    · split at h <;> exact .inl h
    · exact .inl h
  · rw [Logged.record_answer_of_ne hv] at h
    exact .inl h

/-- What is tried again was judged retryable by the worker that got the answer. -/
theorem retried_cases {log : RetryLog} {s : SegmentedState} {e : WorkerEvent} {status : ℕ}
    (h : some status ∈ (log.record cfg s w e).retried) :
    some status ∈ log.retried ∨ (log.answer w = some status ∧
      ∃ lease error todo, s.phases w = .settling lease (.decide error :: todo)) := by
  by_cases he : ∃ now, e = .settle now
  · obtain ⟨now, rfl⟩ := he
    simp only [RetryLog.record] at h
    split at h
    · rename_i lease error todo ep
      simp only [RetryLog.failed] at h
      split_ifs at h
      · rcases List.mem_cons.mp h with heq | h
        · exact .inr ⟨heq.symm, lease, error, todo, ep⟩
        · exact .inl h
      · exact .inl h
    · exact .inl h
    · exact .inl h
  · rw [(Logged.record_counts fun now heq => he ⟨now, heq⟩).2.2] at h
    exact .inl h

/-- **A segment is tried again only as its switches allow.** -/
theorem step {e : SegmentedEvent} (h : q.Honoured cfg)
    (hok : TimeoutsAllowed cfg.retry e.answered) (hs : loggedStep cfg q e = some q') :
    q'.Honoured cfg := by
  refine ⟨h.logged.step hs, ?_, ?_⟩ <;> obtain ⟨s', -, rfl⟩ := Option.map_eq_some_iff.mp hs
  · intro v status hstatus
    cases e with
    | worker w e =>
      rcases answer_cases hstatus with hold | hnew
      · exact h.answers v status hold
      · exact hok status hnew
    | reconcile => exact h.answers v status hstatus
    | cancel => exact h.answers v status hstatus
  · intro status hstatus
    cases e with
    | worker w e =>
      rcases retried_cases hstatus with hold | ⟨hanswer, lease, error, todo, ep⟩
      · exact h.retried status hold
      · have hjudged := h.logged.judged w
        rw [ep] at hjudged
        obtain ⟨hretry, hcause⟩ := hjudged error List.mem_cons_self
        exact honours_of_retryable hretry (hcause status hanswer) (h.answers w status hanswer)
    | reconcile => exact h.retried status hstatus
    | cancel => exact h.retried status hstatus

theorem of_init : (loggedInit cfg).Honoured cfg :=
  ⟨.of_init, fun _ _ h => absurd h (Option.not_mem_none _), fun _ h => absurd h List.not_mem_nil⟩

end LoggedJob.Honoured

/-! ### Sequential runs -/

/-- The loop, and the answers of the requests that were tried again. -/
structure LoggedLoop where
  state : SequentialState
  retried : List ℕ

/-- The status of a response. -/
def SequentialEvent.answered : SequentialEvent → Option ℕ
  | .respond status _ _ _ => some status
  | _ => none

/-- One event, with the statuses after which a request was issued again. -/
def loopStep (cfg : SequentialConfig) (q : LoggedLoop) (e : SequentialEvent) : Option LoggedLoop :=
  (sequentialStep cfg q.state e).map fun s' =>
    -- the attempt is counted where a request is issued again
    ⟨s', if s'.attempt = q.state.attempt then q.retried else e.answered.toList ++ q.retried⟩

/-- The job before its request, and an empty log. -/
def loopInit (cfg : SequentialConfig) : LoggedLoop := ⟨sequentialInit cfg, []⟩

namespace LoggedLoop

variable {cfg : SequentialConfig} {s : SequentialState}

/-- Only a retryable failure takes another attempt. -/
theorem transferFailed_attempt {error : DownloadError} {disk : DiskOutcome}
    (h : (s.transferFailed cfg error disk).attempt ≠ s.attempt) :
    cfg.retry.retryable error = true := by
  unfold SequentialState.transferFailed at h
  simp only at h
  split at h
  · rename_i next hdecide
    exact (decide_eq_some hdecide).2.1
  · exact absurd rfl h

theorem challenged_attempt (decision : CredentialDecision) :
    (s.challenged decision).attempt = s.attempt := by
  unfold SequentialState.challenged
  split
  · cases decision <;> rfl
  · rfl

theorem respond_attempt {status : ℕ} {headers : Headers} {challenge : Option CredentialDecision}
    {disk : DiskOutcome}
    (h : (s.respond cfg status headers challenge disk).attempt ≠ s.attempt) :
    ∃ error, cfg.retry.retryable error = true ∧
      (AcceptedStatus status ∨ error = statusToError status) := by
  unfold SequentialState.respond at h
  split at h
  · exact absurd rfl h
  · rename_i error herror
    split at h
    · exact absurd (challenged_attempt _) h
    · exact ⟨error, transferFailed_attempt h, (transfer_status _ _ _).1 error herror⟩

/-- **So is the sequential body.** -/
theorem step {q q' : LoggedLoop} {e : SequentialEvent}
    (h : ∀ status ∈ q.retried, cfg.retry.Honours status)
    (hok : TimeoutsAllowed cfg.retry e.answered) (hs : loopStep cfg q e = some q') :
    ∀ status ∈ q'.retried, cfg.retry.Honours status := by
  obtain ⟨s', hnext, rfl⟩ := Option.map_eq_some_iff.mp hs
  intro status hstatus
  simp only at hstatus
  split_ifs at hstatus with hattempt
  · exact h status hstatus
  · rcases List.mem_append.mp hstatus with hnew | hold
    · cases e with
      | respond answered headers challenge disk =>
        rw [SequentialEvent.answered, Option.toList_some, List.mem_singleton] at hnew
        subst hnew
        simp only [sequentialStep] at hnext
        split at hnext
        · split_ifs at hnext
          rw [← Option.some.inj hnext] at hattempt
          obtain ⟨error, hretry, hcause⟩ := respond_attempt hattempt
          exact honours_of_retryable hretry hcause (hok status rfl)
        · cases hnext
      | _ => cases hnew
    · exact h status hold

end LoggedLoop

/-! ### Both modes -/

/-- **The retry switches are honoured.**  In every run of either mode in which
no request is answered with 408 against the switch, every request that is tried
again was answered with a status that the policy allows to retry. -/
theorem retry_switches_honoured (cfg : SegmentedConfig) (loop : SequentialConfig) :
    (∀ q, Reach (loggedStep cfg) (fun _ e => TimeoutsAllowed cfg.retry e.answered)
        (· = loggedInit cfg) q →
      ∀ status, some status ∈ q.log.retried → cfg.retry.Honours status) ∧
    ∀ q, Reach (loopStep loop) (fun _ e => TimeoutsAllowed loop.retry e.answered)
        (· = loopInit loop) q →
      ∀ status ∈ q.retried, loop.retry.Honours status := by
  constructor
  · intro q h
    have honoured : q.Honoured cfg :=
      h.invariant (fun _ h₀ => h₀ ▸ LoggedJob.Honoured.of_init)
        fun _ _ _ hq hok hs => hq.step hok hs
    exact honoured.retried
  · intro q h
    refine h.invariant (I := fun q => ∀ status ∈ q.retried, loop.retry.Honours status)
      (fun _ h₀ => ?_) fun _ _ _ hq hok hs => LoggedLoop.step hq hok hs
    rw [h₀]
    exact fun status hstatus => absurd hstatus List.not_mem_nil

/-- A segmented job with the switch for 408 off. -/
def noTimeoutRetry : SegmentedConfig := { twoWorkers with retry := ⟨true, true, false, 3⟩ }

/-- The loop with the switch for 408 off. -/
def noTimeoutLoop : SequentialConfig := { freshJob with retry := ⟨true, true, false, 3⟩ }

/-- A request that is answered with a status, and settled. -/
def answeredRequest (status : ℕ) : List SegmentedEvent :=
  [SegmentedEvent.worker 0 (.acquire 0 0), .worker 0 (.respond status [])] ++
    List.replicate 4 (SegmentedEvent.worker 0 (.settle 0))

/-- A 503 is tried again in both modes. -/
theorem retry_switches_honoured_server :
    (∃ q, runEvents (loggedStep noTimeoutRetry) (loggedInit noTimeoutRetry)
        (answeredRequest 503) = some q ∧ q.log.retried = [some 503] ∧
      noTimeoutRetry.retry.Honours 503) ∧
    ∃ q, runEvents (loopStep noTimeoutLoop) (loopInit noTimeoutLoop)
        [.respond 503 [] none diskOk] = some q ∧ q.retried = [503] ∧
      noTimeoutLoop.retry.Honours 503 := by
  have honoured := retry_switches_honoured noTimeoutRetry noTimeoutLoop
  constructor
  · have hend : ((runEvents (loggedStep noTimeoutRetry) (loggedInit noTimeoutRetry)
        (answeredRequest 503)).map fun q => q.log.retried) = some [some 503] := by decide
    obtain ⟨q, hrun, hq⟩ := Option.map_eq_some_iff.mp hend
    have hreach : Reach (loggedStep noTimeoutRetry)
        (fun _ e => TimeoutsAllowed noTimeoutRetry.retry e.answered)
        (· = loggedInit noTimeoutRetry) q := .of_run (.start rfl) (by decide) hrun
    exact ⟨q, hrun, hq, honoured.1 q hreach 503 (by rw [hq]; decide)⟩
  · have hend : ((runEvents (loopStep noTimeoutLoop) (loopInit noTimeoutLoop)
        [.respond 503 [] none diskOk]).map fun q => q.retried) = some [503] := by decide
    obtain ⟨q, hrun, hq⟩ := Option.map_eq_some_iff.mp hend
    have hreach : Reach (loopStep noTimeoutLoop)
        (fun _ e => TimeoutsAllowed noTimeoutLoop.retry e.answered)
        (· = loopInit noTimeoutLoop) q := .of_run (.start rfl) (by decide) hrun
    exact ⟨q, hrun, hq, honoured.2 q hreach 503 (by rw [hq]; decide)⟩

/-- With the switch off a 408 is tried again in both modes. -/
theorem timeout_retried_against_switch :
    (∃ q, runEvents (loggedStep noTimeoutRetry) (loggedInit noTimeoutRetry)
        (answeredRequest 408) = some q ∧ q.log.retried = [some 408] ∧
      ¬ noTimeoutRetry.retry.Honours 408) ∧
    ∃ q, runEvents (loopStep noTimeoutLoop) (loopInit noTimeoutLoop)
        [.respond 408 [] none diskOk] = some q ∧ q.retried = [408] ∧
      ¬ noTimeoutLoop.retry.Honours 408 := by
  constructor
  · have hend : ((runEvents (loggedStep noTimeoutRetry) (loggedInit noTimeoutRetry)
        (answeredRequest 408)).map fun q => q.log.retried) = some [some 408] := by decide
    obtain ⟨q, hrun, hq⟩ := Option.map_eq_some_iff.mp hend
    exact ⟨q, hrun, hq, fun h => Bool.false_ne_true (h.timeout rfl)⟩
  · have hend : ((runEvents (loopStep noTimeoutLoop) (loopInit noTimeoutLoop)
        [.respond 408 [] none diskOk]).map fun q => q.retried) = some [408] := by decide
    obtain ⟨q, hrun, hq⟩ := Option.map_eq_some_iff.mp hend
    exact ⟨q, hrun, hq, fun h => Bool.false_ne_true (h.timeout rfl)⟩

end KDown
