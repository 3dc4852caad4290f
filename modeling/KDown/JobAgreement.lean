/-
KDown/JobAgreement.lean

Result, error domain and final state of a job (job/controller.rs,
job/segmented.rs).

The three views part in four places: an error `Cancelled` that reaches
`terminal_error` is reported as a cancellation after the state has gone to
`Failed` (also from verification, `cancelled_while_verifying`); a cancelled
segmented job reports the mode it began with; and the deadline turns a
cancellation into an infrastructure failure whose error belongs to the transfer
domain, while the state stays `Cancelled`.  Everywhere else they agree
(`terminal_agreement`).
-/
import KDown.JobRun

namespace KDown

namespace JobRun

variable {cfg : RetryPolicy} {s s' : JobRun}

/-! ### The terminal transitions -/

theorem transition_of_allowed {target : JobState} (h : JobState.allowed s.state target = true) :
    (s.transition target).state = target := by
  have hlive : s.state.isTerminal = false := by
    by_contra hno
    rw [JobState.not_allowed_of_isTerminal (by simpa using hno)] at h
    cases h
  show (if s.state.isTerminal then s.state
    else if JobState.allowed s.state target then target else s.state) = target
  rw [hlive, h]
  rfl

theorem fail_state (h : JobState.allowed s.state .failing = true) :
    ((s.transition .failing).transition .failed).state = .failed := by
  refine transition_of_allowed ?_
  rw [transition_of_allowed h]
  rfl

theorem cancel_state (h : JobState.allowed s.state .cancelling = true) :
    ((s.transition .cancelling).transition .cancelled).state = .cancelled := by
  refine transition_of_allowed ?_
  rw [transition_of_allowed h]
  rfl

/-- The state while the task is at a point. -/
def stateAt : JobPoint → JobState
  | .starting => .created
  | .probing => .probing
  | .resolving => .probing
  | .preparing => .preparing
  | .sequential => .running
  | .segmented => .running
  | .assembled => .running
  | .verifying => .verifying
  | .committing => .committing
  | .publishing => .committing
  | .returned => .failed
  | .reported => .failed

/-- The task has not returned. -/
def isLive : JobPoint → Bool
  | .returned => false
  | .reported => false
  | _ => true

theorem allowed_failing {p : JobPoint} (h : isLive p = true) :
    JobState.allowed (stateAt p) .failing = true := by
  cases p <;> first | rfl | cases h

/-! ### What a result says -/

/-- State, cleanup and result agree. -/
def Agrees (state : JobState) (cleanedWith : Option CancelMode) :
    Except DownloadRunError Unit → Prop
  | .ok () => state = .completed
  | .error (.transfer error _) => state = .failed ∧ error.domain = .transfer
  | .error (.infrastructure error _) => state = .failed ∧ error.domain = .infrastructure
  | .error (.cancelled mode _) => state = .cancelled ∧ cleanedWith = some mode

/-- The task has returned with a result that agrees. -/
def Settled (s : JobRun) : Prop :=
  isLive s.point = false ∧ ∃ result, s.result = some result ∧ Agrees s.state s.cleanedWith result

theorem settled_terminalError {error : DownloadError} {artifacts : ArtifactDisposition}
    {mode : CancelMode} {dropped : Bool} (hstate : JobState.allowed s.state .failing = true)
    (herror : error.domain ≠ .cancelled) :
    Settled (s.terminalError error artifacts mode dropped) := by
  have hfailed := fail_state hstate
  rw [terminalError]
  split
  · next hdomain => exact ⟨rfl, _, rfl, hfailed, hdomain⟩
  · next hdomain => exact ⟨rfl, _, rfl, hfailed, hdomain⟩
  · next hdomain => exact absurd hdomain herror

theorem settled_terminalCancelled {mode : CancelMode} {artifacts : ArtifactDisposition}
    {dropped : Bool} (hstate : JobState.allowed s.state .cancelling = true)
    (hmode : s.cleanedWith = some mode) : Settled (s.terminalCancelled mode artifacts dropped) :=
  ⟨rfl, _, rfl, cancel_state hstate, hmode⟩

theorem abort_state (aborted : Bool) : (s.abort aborted).1.state = s.state := by
  rw [abort]
  split <;> rfl

theorem deleteCheckpoint_frame (exit : ExitAnswers) :
    (s.deleteCheckpoint exit).1.state = s.state ∧
      (s.deleteCheckpoint exit).1.cleanedWith = s.cleanedWith := by
  rw [deleteCheckpoint]
  split <;> exact ⟨rfl, rfl⟩

theorem abort_cleanedWith (aborted : Bool) : (s.abort aborted).1.cleanedWith = s.cleanedWith := by
  rw [abort]
  split <;> rfl

theorem cleanupCancelled_frame (mode : CancelMode) (exit : ExitAnswers) :
    (s.cleanupCancelled mode exit).1.state = s.state ∧
      (s.cleanupCancelled mode exit).1.cleanedWith = some mode := by
  cases mode with
  | deletePartial =>
    rw [cleanupCancelled]
    obtain ⟨hstate, hcleaned⟩ := deleteCheckpoint_frame
      (s := ({ s with cleanedWith := some .deletePartial }.abort exit.aborted).1) exit
    exact ⟨hstate.trans (abort_state _), hcleaned.trans (abort_cleanedWith _)⟩
  | keepPartial => exact ⟨rfl, rfl⟩
  | keepFileDiscardCheckpoint => exact deleteCheckpoint_frame exit

/-! ### The condition -/

/-- The errors of an answer. -/
def OpenAnswer.errors : OpenAnswer → List DownloadError
  | .opened => []
  | .failed error _ _ => [error]

/-- The errors an event may hand to `terminal_error`. -/
def errors (s : JobRun) : JobEvent → List DownloadError
  | .rejected error => [error]
  | .probeFailed error => [error]
  | .unresolved error => [error]
  | .opened answer _ => OpenAnswer.errors answer
  | .fatal error _ => [error]
  | .transferFailed error _ next => error :: OpenAnswer.errors next
  | .bodyFailed _ _ _ next => OpenAnswer.errors next
  | .segmentedRefused error _ => [error]
  | .joined workerError reclaimError fatal _ _ =>
      if s.cancelled then
        if reclaimError.isSome then (workerError.or reclaimError).toList else []
      else ((workerError.or reclaimError).or fatal).toList
  | .verifyCancelled _ => [s.cancellationError]
  | .verifyFailed error _ => [error]
  | .finalizeFailed error _ => [error]
  | .commitFailed error _ => [error]
  | _ => []

/-- The mode of a segmented job that is cleaned up is the one it began with. -/
def ModeKept (s : JobRun) : JobEvent → Prop
  | .joined _ reclaimError _ _ _ =>
      s.cancelled = true → reclaimError.isNone → s.mode = s.segmentMode
  | _ => True

/-- The task has returned as cancelled. -/
def returnedCancelled (s : JobRun) : Bool :=
  match s.result with
  | some (.error (.cancelled _ _)) => true
  | _ => false

/-- The deadline of a job that returned as cancelled has not expired. -/
def DeadlineKept (s : JobRun) : JobEvent → Prop
  | .report => s.returnedCancelled = true → s.deadline = false
  | _ => True

/-- What the condition of the theorem asks of a step. -/
structure Consistent (s : JobRun) (e : JobEvent) : Prop where
  errors : ∀ error ∈ s.errors e, error.domain ≠ .cancelled
  mode : s.ModeKept e
  deadline : s.DeadlineKept e

instance (s : JobRun) : ∀ e, Decidable (s.ModeKept e)
  | .joined _ _ _ _ _ => inferInstanceAs (Decidable (s.cancelled = true → _ → _))
  | .setMode _ | .cancel | .deadlineExpires | .admissionRejected _ _ | .rejected _ | .beginProbe
  | .probeCancelled | .probeRefused _ | .probeFailed _ | .probed | .unresolved _ | .admitted _ _
  | .opened _ _ | .observeCancel _ | .refused _ _ | .fatal _ _ | .transferFailed _ _ _
  | .bodyFailed _ _ _ _ | .saved | .saveFailed _ _ _ | .bodyEnded | .coordinatorSaved
  | .coordinatorSaveFailed _ | .segmentedRefused _ _ | .verifyCancelled _ | .beginVerify
  | .verifyFailed _ _ | .beginCommit | .finalizeFailed _ _ | .finalized | .commitFailed _ _
  | .committed _ _ | .report => .isTrue trivial

instance (s : JobRun) : ∀ e, Decidable (s.DeadlineKept e)
  | .report => inferInstanceAs (Decidable (s.returnedCancelled = true → _))
  | .setMode _ | .cancel | .deadlineExpires | .admissionRejected _ _ | .rejected _ | .beginProbe
  | .probeCancelled | .probeRefused _ | .probeFailed _ | .probed | .unresolved _ | .admitted _ _
  | .opened _ _ | .observeCancel _ | .refused _ _ | .fatal _ _ | .transferFailed _ _ _
  | .bodyFailed _ _ _ _ | .saved | .saveFailed _ _ _ | .bodyEnded | .coordinatorSaved
  | .coordinatorSaveFailed _ | .segmentedRefused _ _ | .joined _ _ _ _ _ | .verifyCancelled _
  | .beginVerify | .verifyFailed _ _ | .beginCommit | .finalizeFailed _ _ | .finalized | .commitFailed _ _
  | .committed _ _ => .isTrue trivial

instance (s : JobRun) (e : JobEvent) : Decidable (s.Consistent e) :=
  decidable_of_iff
    ((∀ error ∈ s.errors e, error.domain ≠ .cancelled) ∧ s.ModeKept e ∧ s.DeadlineKept e)
    ⟨fun ⟨h₁, h₂, h₃⟩ => ⟨h₁, h₂, h₃⟩, fun ⟨h₁, h₂, h₃⟩ => ⟨h₁, h₂, h₃⟩⟩

/-! ### Runs -/

/-- A task that has not returned is in the state of its point; one that has
returned is settled. -/
structure AgreeInv (s : JobRun) : Prop where
  live : isLive s.point = true → s.state = stateAt s.point
  settled : isLive s.point = false → Settled s

theorem AgreeInv.of_settled (h : Settled s) : AgreeInv s where
  live := fun hno => by
    rw [h.1] at hno
    cases hno
  settled := fun _ => h

theorem AgreeInv.of_live (hp : isLive s.point = true) (h : s.state = stateAt s.point) : AgreeInv s where
  live := fun _ => h
  settled := fun hno => by
    rw [hp] at hno
    cases hno

theorem AgreeInv.allowed (hi : AgreeInv s) {p : JobPoint} (hp : s.point = p) (hl : isLive p = true) :
    JobState.allowed s.state .failing = true := by
  subst hp
  rw [hi.live hl]
  exact allowed_failing hl

theorem AgreeInv.state_at (hi : AgreeInv s) {p : JobPoint} (hp : s.point = p)
    (hl : isLive p = true) : s.state = stateAt p :=
  hp ▸ hi.live (hp ▸ hl)

/-- Where cancellation is observed, the state allows it. -/
theorem AgreeInv.allowed_cancelling (hi : AgreeInv s) {p : JobPoint} (hp : s.point = p)
    (hor : p = .probing ∨ p = .sequential) : JobState.allowed s.state .cancelling = true := by
  cases hor with
  | inl hq =>
    rw [hi.state_at (hp.trans hq) rfl]
    rfl
  | inr hq =>
    rw [hi.state_at (hp.trans hq) rfl]
    rfl

/-! ### The exits keep the agreement -/

theorem settled_exitCancelledBare (h : JobState.allowed s.state .cancelling = true) :
    Settled s.exitCancelledBare :=
  settled_terminalCancelled h rfl

theorem settled_exitCancelled {exit : ExitAnswers}
    (h : JobState.allowed s.state .cancelling = true) : Settled (s.exitCancelled exit) := by
  obtain ⟨hstate, hcleaned⟩ := cleanupCancelled_frame (s := s) s.mode exit
  refine settled_terminalCancelled ?_ hcleaned
  rw [hstate]
  exact h

theorem settled_exitAborted {error : DownloadError} {exit : ExitAnswers}
    (h : JobState.allowed s.state .failing = true) (herror : error.domain ≠ .cancelled) :
    Settled (s.exitAborted error exit) := by
  refine settled_terminalError ?_ herror
  rw [abort_state]
  exact h

theorem givenUp_domain {error : DownloadError} (h : error.domain ≠ .cancelled) :
    (givenUp cfg error).domain ≠ .cancelled := by
  rw [givenUp]
  split
  · exact fun hno => by cases hno
  · exact h

/-- Opening the output, whatever the disk answers. -/
theorem agree_openOutput {answer : OpenAnswer} {eligible : Bool} (hstate : s.state = .preparing)
    (herror : ∀ error ∈ OpenAnswer.errors answer, error.domain ≠ .cancelled) :
    AgreeInv (s.openOutput answer eligible) := by
  have hfail : JobState.allowed s.state .failing = true := by
    rw [hstate]
    rfl
  have hrun : (s.transition .running).state = .running := by
    apply transition_of_allowed
    rw [hstate]
    rfl
  cases answer with
  | opened =>
    rw [openOutput]
    split <;> exact AgreeInv.of_live rfl hrun
  | failed error cleared stray =>
    have hdomain := herror error (List.mem_singleton_self error)
    rw [openOutput]
    split <;> exact AgreeInv.of_settled (settled_terminalError hfail hdomain)

/-- A body that is started over on a new file. -/
theorem agree_recreate {attempt : ℕ} {exit : ExitAnswers} {next : OpenAnswer}
    (hpoint : s.point = .sequential) (hstate : s.state = .running)
    (herror : ∀ error ∈ OpenAnswer.errors next, error.domain ≠ .cancelled) :
    AgreeInv (s.recreate attempt exit next) := by
  have hrun : (s.abort exit.aborted).1.state = .running := (abort_state _).trans hstate
  cases next with
  | opened =>
    have hp : (s.abort exit.aborted).1.point = .sequential := by
      rw [← hpoint, abort]
      split <;> rfl
    refine AgreeInv.of_live ?_ ?_
    · show isLive (s.abort exit.aborted).1.point = true
      rw [hp]
      rfl
    · show (s.abort exit.aborted).1.state = stateAt (s.abort exit.aborted).1.point
      rw [hp, hrun]
      rfl
  | failed error cleared stray =>
    refine AgreeInv.of_settled (settled_terminalError ?_ (herror error (List.mem_singleton_self _)))
    show JobState.allowed (s.abort exit.aborted).1.state .failing = true
    rw [hrun]
    rfl

theorem agree_transferFails {error : DownloadError} {exit : ExitAnswers} {next : OpenAnswer}
    (hpoint : s.point = .sequential) (hstate : s.state = .running)
    (herror : ∀ e ∈ error :: OpenAnswer.errors next, e.domain ≠ .cancelled) :
    AgreeInv (s.transferFails cfg error exit next) := by
  rw [transferFails]
  split
  · exact agree_recreate hpoint hstate fun e he => herror e (List.mem_cons_of_mem _ he)
  · refine AgreeInv.of_settled (settled_terminalError ?_
      (givenUp_domain (herror error List.mem_cons_self)))
    rw [abort_state, abort_state, hstate]
    rfl

/-- A body that breaks off, by where it may go on. -/
theorem agree_bodyFails {error : DownloadError} {durable : Bool} {exit : ExitAnswers}
    {next : OpenAnswer} (hpoint : s.point = .sequential) (hstate : s.state = .running)
    (hbody : error.domain ≠ .cancelled)
    (herror : ∀ e ∈ OpenAnswer.errors next, e.domain ≠ .cancelled) :
    AgreeInv (s.bodyFails cfg error durable exit next) := by
  have hfail : JobState.allowed s.state .failing = true := by
    rw [hstate]
    rfl
  rw [bodyFails]
  split
  · split
    · cases next with
      | opened =>
        refine AgreeInv.of_live ?_ ?_
        · show isLive s.point = true
          rw [hpoint]
          rfl
        · show s.state = stateAt s.point
          rw [hpoint, hstate]
          rfl
      | failed error' cleared stray =>
        exact AgreeInv.of_settled
          (settled_terminalError hfail (herror error' (List.mem_singleton_self _)))
    · exact agree_recreate hpoint hstate herror
  · exact AgreeInv.of_settled (settled_exitAborted hfail (givenUp_domain hbody))

/-- The workers are joined, and the first error decides. -/
theorem agree_join {workerError reclaimError fatal : Option DownloadError} {complete : Bool}
    {exit : ExitAnswers} (hstate : s.state = .running)
    (hok : s.Consistent (.joined workerError reclaimError fatal complete exit)) :
    AgreeInv (s.join workerError reclaimError fatal complete exit) := by
  have hfail : JobState.allowed s.state .failing = true := by
    rw [hstate]
    rfl
  have herrors := hok.errors
  have hmode := hok.mode
  unfold join
  by_cases hc : s.cancelled = true
  · rw [if_pos hc]
    simp only [errors, hc, if_true] at herrors
    cases reclaimError with
    | none =>
      obtain ⟨hs, hcleaned⟩ := cleanupCancelled_frame (s := s) s.mode exit
      refine AgreeInv.of_settled (settled_terminalCancelled ?_ ?_)
      · rw [hs, hstate]
        rfl
      · rw [hcleaned, hmode hc rfl]
    | some e =>
      refine AgreeInv.of_settled (settled_terminalError hfail ?_)
      cases workerError with
      | none => exact herrors e (List.mem_singleton_self _)
      | some w => exact herrors w (List.mem_singleton_self _)
  · rw [if_neg hc]
    simp only [errors, hc] at herrors
    cases hout : (workerError.or reclaimError).or fatal with
    | some e =>
      rw [hout] at herrors
      exact AgreeInv.of_settled
        (settled_terminalError hfail (herrors e (List.mem_singleton_self _)))
    | none =>
      cases complete with
      | true => exact AgreeInv.of_live rfl hstate
      | false =>
        show AgreeInv (s.segmentedFails
          (.protocol "segmented transfer ended with incomplete coverage") exit)
        refine AgreeInv.of_settled (settled_terminalError hfail ?_)
        exact fun hno => by cases hno

theorem agrees_rewriteDeadline {result : Except DownloadRunError Unit} {state : JobState}
    {cleanedWith : Option CancelMode} {deadline : Bool} (h : Agrees state cleanedWith result)
    (hdeadline : ∀ mode artifacts, result = .error (.cancelled mode artifacts) → deadline = false) :
    Agrees state cleanedWith (rewriteDeadline deadline result) := by
  cases result with
  | ok u => exact h
  | error err =>
    cases err with
    | transfer e a => exact h
    | infrastructure e a => exact h
    | cancelled mode artifacts =>
      rw [hdeadline mode artifacts rfl]
      exact h

theorem agree_report (h : Settled s) (hok : s.Consistent .report) :
    AgreeInv { s with point := .reported, result := s.result.map (rewriteDeadline s.deadline) } := by
  obtain ⟨-, result, hresult, hagrees⟩ := h
  refine AgreeInv.of_settled ⟨rfl, rewriteDeadline s.deadline result, ?_, ?_⟩
  · show s.result.map _ = _
    rw [hresult]
    rfl
  · refine agrees_rewriteDeadline hagrees fun mode artifacts hcancelled => ?_
    apply hok.deadline
    rw [returnedCancelled, hresult, hcancelled]

/-- One event: a live task moves on in the state of its next point, or returns
settled. -/
theorem agree_step {e : JobEvent} (hi : AgreeInv s) (hok : s.Consistent e)
    (h : step cfg s e = some s') : AgreeInv s' := by
  have hdomain : ∀ error ∈ s.errors e, error.domain ≠ .cancelled := hok.errors
  cases e with
  | setMode mode =>
    rw [← Option.some.inj h]
    exact ⟨hi.live, hi.settled⟩
  | cancel =>
    rw [← Option.some.inj h]
    exact ⟨hi.live, hi.settled⟩
  | deadlineExpires =>
    obtain ⟨-, rfl⟩ := ifEnabled_some h
    exact ⟨hi.live, hi.settled⟩
  | admissionRejected active cap =>
    obtain ⟨hp, rfl⟩ := ifEnabled_at h
    exact AgreeInv.of_settled ⟨rfl, _, rfl, fail_state (hi.allowed hp rfl), rfl⟩
  | rejected error =>
    obtain ⟨hp, rfl⟩ := ifEnabled_at h
    exact AgreeInv.of_settled (settled_terminalError (hi.allowed hp rfl)
      (hdomain error (List.mem_singleton_self _)))
  | beginProbe =>
    obtain ⟨hp, rfl⟩ := ifEnabled_at h
    refine AgreeInv.of_live rfl (transition_of_allowed ?_)
    rw [hi.state_at (p := .starting) hp rfl]
    rfl
  | probeCancelled =>
    obtain ⟨hp, rfl⟩ := ifEnabled_some h
    simp only [Bool.and_eq_true, decide_eq_true_eq] at hp
    exact AgreeInv.of_settled (settled_exitCancelledBare (hi.allowed_cancelling hp.1 (.inl rfl)))
  | probeRefused error =>
    obtain ⟨hp, rfl⟩ := ifEnabled_at h
    split
    · exact AgreeInv.of_settled (settled_exitCancelledBare (hi.allowed_cancelling hp (.inl rfl)))
    · next hno =>
      simp only [Bool.or_eq_true, decide_eq_true_eq, not_or] at hno
      exact AgreeInv.of_settled (settled_terminalError (hi.allowed hp rfl) hno.1)
  | probeFailed error =>
    obtain ⟨hp, rfl⟩ := ifEnabled_at h
    split
    · exact ⟨hi.live, hi.settled⟩
    · exact AgreeInv.of_settled (settled_terminalError (hi.allowed hp rfl)
        (hdomain error (List.mem_singleton_self _)))
  | probed =>
    obtain ⟨hp, rfl⟩ := ifEnabled_at h
    exact AgreeInv.of_live rfl (hi.state_at (p := .probing) hp rfl)
  | unresolved error =>
    obtain ⟨hp, rfl⟩ := ifEnabled_at h
    exact AgreeInv.of_settled (settled_terminalError (hi.allowed hp rfl)
      (hdomain error (List.mem_singleton_self _)))
  | admitted plan checkpoint =>
    obtain ⟨hp, rfl⟩ := ifEnabled_at h
    refine AgreeInv.of_live rfl (transition_of_allowed ?_)
    rw [hi.state_at (p := .resolving) hp rfl]
    rfl
  | opened answer eligible =>
    obtain ⟨hp, rfl⟩ := ifEnabled_at h
    exact agree_openOutput (hi.state_at (p := .preparing) hp rfl) hdomain
  | observeCancel exit =>
    obtain ⟨hp, rfl⟩ := ifEnabled_some h
    simp only [Bool.and_eq_true, decide_eq_true_eq] at hp
    exact AgreeInv.of_settled (settled_exitCancelled (hi.allowed_cancelling hp.1 (.inr rfl)))
  | refused error exit =>
    obtain ⟨hp, rfl⟩ := ifEnabled_at h
    split
    · exact AgreeInv.of_settled (settled_exitCancelled (hi.allowed_cancelling hp (.inr rfl)))
    · next hno =>
      simp only [Bool.or_eq_true, decide_eq_true_eq, not_or] at hno
      exact AgreeInv.of_settled (settled_exitAborted (hi.allowed hp rfl) hno.1)
  | fatal error exit =>
    obtain ⟨hp, rfl⟩ := ifEnabled_at h
    exact AgreeInv.of_settled (settled_exitAborted (hi.allowed hp rfl)
      (hdomain error (List.mem_singleton_self _)))
  | transferFailed error exit next =>
    obtain ⟨hp, rfl⟩ := ifEnabled_at h
    exact agree_transferFails hp (hi.state_at hp rfl) hdomain
  | bodyFailed error durable exit next =>
    obtain ⟨hp, rfl⟩ := ifEnabled_at h
    split
    · exact AgreeInv.of_settled (settled_exitCancelled (hi.allowed_cancelling hp (.inr rfl)))
    · next hno => exact agree_bodyFails hp (hi.state_at hp rfl) hno hdomain
  | saved =>
    obtain ⟨hp, rfl⟩ := ifEnabled_at h
    exact ⟨hi.live, hi.settled⟩
  | saveFailed detail stored exit =>
    obtain ⟨hp, rfl⟩ := ifEnabled_at h
    exact AgreeInv.of_settled (settled_terminalError (hi.allowed hp rfl) fun hno => by cases hno)
  | bodyEnded =>
    obtain ⟨hp, rfl⟩ := ifEnabled_at h
    exact AgreeInv.of_live rfl (hi.state_at (p := .sequential) hp rfl)
  | coordinatorSaved =>
    obtain ⟨hp, rfl⟩ := ifEnabled_at h
    exact ⟨hi.live, hi.settled⟩
  | coordinatorSaveFailed stored =>
    obtain ⟨hp, rfl⟩ := ifEnabled_at h
    exact ⟨hi.live, hi.settled⟩
  | segmentedRefused error exit =>
    obtain ⟨hp, rfl⟩ := ifEnabled_at h
    exact AgreeInv.of_settled (settled_terminalError (hi.allowed hp rfl)
      (hdomain error (List.mem_singleton_self _)))
  | joined workerError reclaimError fatal complete exit =>
    obtain ⟨hp, rfl⟩ := ifEnabled_at h
    exact agree_join (hi.state_at (p := .segmented) hp rfl) hok
  | verifyCancelled exit =>
    obtain ⟨hp, rfl⟩ := ifEnabled_some h
    simp only [Bool.and_eq_true, Bool.or_eq_true, decide_eq_true_eq] at hp
    refine AgreeInv.of_settled (settled_terminalError ?_ (hdomain _ (List.mem_singleton_self _)))
    cases hp.1 with
    | inl hq => exact hi.allowed hq rfl
    | inr hq => exact hi.allowed hq rfl
  | beginVerify =>
    obtain ⟨hp, rfl⟩ := ifEnabled_some h
    simp only [Bool.and_eq_true, decide_eq_true_eq] at hp
    refine AgreeInv.of_live rfl (transition_of_allowed ?_)
    rw [hi.state_at hp.1 rfl]
    rfl
  | verifyFailed error exit =>
    obtain ⟨hp, rfl⟩ := ifEnabled_at h
    exact AgreeInv.of_settled (settled_terminalError (hi.allowed hp rfl)
      (hdomain error (List.mem_singleton_self _)))
  | beginCommit =>
    obtain ⟨hp, rfl⟩ := ifEnabled_some h
    simp only [Bool.and_eq_true, decide_eq_true_eq] at hp
    refine AgreeInv.of_live rfl (transition_of_allowed ?_)
    rw [hi.state_at hp.1 rfl]
    rfl
  | finalizeFailed error exit =>
    obtain ⟨hp, rfl⟩ := ifEnabled_at h
    exact AgreeInv.of_settled (settled_terminalError (hi.allowed hp rfl)
      (hdomain error (List.mem_singleton_self _)))
  | finalized =>
    obtain ⟨hp, rfl⟩ := ifEnabled_at h
    exact AgreeInv.of_live rfl (hi.state_at (p := .committing) hp rfl)
  | commitFailed error exit =>
    obtain ⟨hp, rfl⟩ := ifEnabled_at h
    exact AgreeInv.of_settled (settled_terminalError (hi.allowed hp rfl)
      (hdomain error (List.mem_singleton_self _)))
  | committed left exit =>
    obtain ⟨hp, rfl⟩ := ifEnabled_at h
    refine AgreeInv.of_settled ⟨rfl, _, rfl, transition_of_allowed ?_⟩
    rw [(deleteCheckpoint_frame exit).1]
    show JobState.allowed s.state .completed = true
    rw [hi.state_at (p := .publishing) hp rfl]
    rfl
  | report =>
    obtain ⟨hp, rfl⟩ := ifEnabled_at h
    refine agree_report (hi.settled ?_) hok
    rw [hp]
    rfl

theorem agree_start (disk : JobDisk) : AgreeInv (start disk) :=
  AgreeInv.of_live rfl rfl

/-! ### The reported result -/

/-- Result, error domain, final state and cleanup agree. -/
structure TerminalAgreement (s : JobRun) : Prop where
  completed : s.result = some (.ok ()) ↔ s.state = .completed
  cancelled : (∃ mode artifacts, s.result = some (.error (.cancelled mode artifacts))) ↔
    s.state = .cancelled
  failed : (∃ error artifacts, s.result = some (.error (.transfer error artifacts)) ∨
    s.result = some (.error (.infrastructure error artifacts))) ↔ s.state = .failed
  transfer : ∀ error artifacts, s.result = some (.error (.transfer error artifacts)) →
    error.domain = .transfer
  infrastructure : ∀ error artifacts, s.result = some (.error (.infrastructure error artifacts)) →
    error.domain = .infrastructure
  mode : ∀ mode artifacts, s.result = some (.error (.cancelled mode artifacts)) →
    s.cleanedWith = some mode

/-- The one view of `Agrees` gives all three. -/
theorem Settled.terminalAgreement (h : Settled s) : TerminalAgreement s := by
  obtain ⟨-, result, hresult, hagrees⟩ := h
  cases result with
  | ok u =>
    have hstate : s.state = .completed := hagrees
    constructor <;> simp [hresult, hstate]
  | error err =>
    cases err with
    | transfer e a =>
      have hstate : s.state = .failed := hagrees.1
      have hdomain : e.domain = .transfer := hagrees.2
      constructor <;> simp [hresult, hstate, hdomain]
    | infrastructure e a =>
      have hstate : s.state = .failed := hagrees.1
      have hdomain : e.domain = .infrastructure := hagrees.2
      constructor <;> simp [hresult, hstate, hdomain]
    | cancelled m a =>
      have hstate : s.state = .cancelled := hagrees.1
      have hcleaned : s.cleanedWith = some m := hagrees.2
      constructor <;> simp [hresult, hstate, hcleaned]

/-- **Terminal agreement.**  In every run that is consistent, once the end is
reported, the result, the domain of its error, the final state and the cleanup
tell one and the same outcome. -/
theorem terminal_agreement {disk : JobDisk}
    (h : Reach (step cfg) Consistent (· = start disk) s) (hreported : s.point = .reported) :
    TerminalAgreement s := by
  have hinv : AgreeInv s :=
    Reach.invariant (fun s₀ h₀ => h₀ ▸ agree_start disk)
      (fun _ _ _ hi hok hstep => agree_step hi hok hstep) h
  refine (hinv.settled ?_).terminalAgreement
  rw [hreported]
  rfl

/-- A job that tries nothing again. -/
def noRetries : RetryPolicy := ⟨false, false, false, 0⟩

/-- A job cancelled during its sequential transfer. -/
def cancelledTransfer : List JobEvent :=
  [.beginProbe, .probed, .admitted .fresh false, .opened .opened false, .saved,
    .setMode .keepPartial, .cancel, .observeCancel ⟨true, true, true, true, false⟩, .report]

/-- The job reports its cancellation, and everything agrees. -/
theorem terminal_agreement_cancelledTransfer :
    ∃ s, runEvents (step noRetries) (start ⟨false, false⟩) cancelledTransfer = some s ∧
      s.result = some (.error (.cancelled .keepPartial ⟨true, true⟩)) ∧ TerminalAgreement s := by
  refine ⟨_, rfl, rfl, ?_⟩
  have hok : runOk (step noRetries) Consistent (start ⟨false, false⟩) cancelledTransfer := by
    decide +kernel
  exact terminal_agreement (Reach.of_run (Reach.start rfl) hok rfl) rfl

/-- A job cancelled while its output is verified. -/
def cancelledVerification : List JobEvent :=
  [.beginProbe, .probed, .admitted .fresh false, .opened .opened false, .bodyEnded, .beginVerify,
    .cancel, .verifyCancelled ⟨true, true, true, true, false⟩, .report]

/-- **A job cancelled while it verifies ends as failed**, and reports a
cancellation. -/
theorem cancelled_while_verifying :
    ∃ s, runEvents (step noRetries) (start ⟨false, false⟩) cancelledVerification = some s ∧
      s.point = .reported ∧ s.result = some (.error (.cancelled .deletePartial {})) ∧
      s.state = .failed ∧ ¬ TerminalAgreement s := by
  refine ⟨_, rfl, rfl, rfl, rfl, fun h => ?_⟩
  have hstate := h.cancelled.mp ⟨.deletePartial, {}, rfl⟩
  cases hstate

end JobRun

end KDown
