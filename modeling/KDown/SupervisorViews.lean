/-
KDown/SupervisorViews.lean

What the supervisor publishes and replies (app supervisor/mod.rs).

A view is built from one of two sources.  Milestones load the durable record;
the sampler goes by the copy of the record that an active run carries, next to
the sequence number of its samples.  Both are kept here beside the actor.

* `copies` is what an active run carries beside its attempt.  The entry of a
  job that has no run is not looked at.
* The snapshot of an engine run is taken when a view is built, so it is given
  for every job and every number of views published before.
* `published` is everything that was sent to subscribers, in order, and `reply`
  what the command of the last step was answered with.

`step_actor` says that the actor underneath moves as in `supervisorStep`.
-/
import KDown.JobView
import KDown.SupervisorLatch

namespace KDown

/-- What an active run carries beside its attempt and its handle. -/
structure RunCopy where
  seq : ℕ
  job : JobRecord

/-- A launch that is refused, by the check of the filename or after it. -/
structure LaunchRefusal where
  error : AppError
  byName : Bool

/-- The actor with what it has published. -/
structure Publisher (δ : Type*) where
  actor : Actor
  copies : ℕ → RunCopy
  published : List (JobView δ)
  reply : Option (ℕ × Except AppError (JobView δ))

/-- The largest sequence number. -/
def maxSampleSeq : ℕ := 18446744073709551615

namespace Publisher

variable {δ : Type*} (snapshot : ℕ → ℕ → δ) (key : ℕ)

/-- The registry is replaced. -/
def withRegistry (p : Publisher δ) (registry : Registry) : Publisher δ :=
  { p with actor := { p.actor with registry := registry } }

/-- The queue is replaced. -/
def withQueue (p : Publisher δ) (queue : List ℕ) : Publisher δ :=
  { p with actor := { p.actor with queue := queue } }

/-- A view is published. -/
def publish (p : Publisher δ) (view : JobView δ) : Publisher δ :=
  { p with published := p.published ++ [view] }

/-- The number of the last sample of a run, or zero. -/
def seqOf (p : Publisher δ) (job : ℕ) : ℕ :=
  match p.actor.active.get? job with
  | some _ => (p.copies job).seq
  | none => 0

/-- Broadcast the durable record as a milestone. -/
def broadcastRecord (p : Publisher δ) (job : ℕ) : Publisher δ :=
  match p.actor.registry.loadJob job with
  | .error _ => p
  | .ok record =>
      p.publish (jobView job record record.currentAttemptId (p.seqOf job)
        (if p.actor.active.contains job then some (snapshot job p.published.length) else none))

/-- Load the record of a run again. -/
def refresh (p : Publisher δ) (job : ℕ) : Publisher δ :=
  match p.actor.registry.loadJob job with
  | .error _ => p
  | .ok record => { p with copies := Function.update p.copies job ⟨(p.copies job).seq, record⟩ }

/-- The run has counted a sample. -/
def setSeq (p : Publisher δ) (job seq : ℕ) : Publisher δ :=
  { p with copies := Function.update p.copies job ⟨seq, (p.copies job).job⟩ }

/-- The view a reply carries. -/
def viewOf (p : Publisher δ) (job seq : ℕ) : Except AppError (JobView δ) :=
  (p.actor.registry.loadJob job).map fun record =>
    jobView job record record.currentAttemptId seq none

/-! ### Launching -/

/-- There is an attempt to launch under, and the job can be marked. -/
def prepares (p : Publisher δ) (job : ℕ) (reason : AttemptReason) (prebound : Option ℕ) : Bool :=
  match p.actor.attemptFor key job reason prebound with
  | .error _ => false
  | .ok (_, registry) => (registry.markStatus job .active).isOk

/-- `launch_job`, with its milestones. -/
def launchJob (p : Publisher δ) (job : ℕ) (reason : AttemptReason) (prebound : Option ℕ)
    (refusal : Option LaunchRefusal) : Option AppError × Publisher δ :=
  let answer := p.actor.launchJob key job reason prebound (refusal.map (·.error))
  match answer.1 with
  | some e =>
      -- the check of the filename returns without a milestone
      if p.prepares key job reason prebound && refusal.any fun r => !r.byName then
        (some e, { p with actor := answer.2 }.broadcastRecord snapshot job)
      else (some e, { p with actor := answer.2 })
  | none =>
      (none, (({ p with actor := answer.2 }.setSeq job 0).refresh job).broadcastRecord snapshot job)

/-! ### Commands -/

/-- `enqueue`, with the view it replies. -/
def enqueue (p : Publisher δ) (job : ℕ) (prebound : Option ℕ) (refusal : Option LaunchRefusal) :
    Except AppError (JobView δ) × Publisher δ :=
  match p.actor.registry.loadJob job with
  | .error e => (.error e, p)
  | .ok record =>
      if record.status.isTerminal then (.error .invalidTransition, p)
      else if p.actor.full then (p.viewOf job 0, p.withQueue (p.actor.queue ++ [job]))
      else
        let answer := p.launchJob snapshot key job .initial prebound refusal
        match answer.1 with
        | some e => (.error e, answer.2)
        | none => (answer.2.viewOf job 0, answer.2)

/-- Pause and resume.  A run that took the command loads its record again. -/
def control (p : Publisher δ) (job expected : ℕ) (desired : DesiredState)
    (status : DurableJobStatus) (refusal : Option AppError) :
    Except AppError (JobView δ) × Publisher δ :=
  let answer := p.actor.control job expected desired status refusal
  let p := { p with actor := answer.2 }
  match answer.1 with
  | some e => (.error e, p)
  | none =>
      let p := (if p.actor.active.contains job then p.refresh job else p).broadcastRecord snapshot job
      (p.viewOf job (p.seqOf job), p)

/-- `pause`. -/
def pause (p : Publisher δ) (job expected : ℕ) (refusal : Option AppError) :
    Except AppError (JobView δ) × Publisher δ :=
  p.control snapshot job expected .paused .paused refusal

/-- `resume`. -/
def resume (p : Publisher δ) (job expected : ℕ) (refusal : Option AppError) :
    Except AppError (JobView δ) × Publisher δ :=
  p.control snapshot job expected .running .active refusal

/-- The record the change of the desired state returned. -/
def swappedRecord (r : Registry) (job expected : ℕ) (desired : DesiredState) :
    Except AppError JobRecord :=
  (r.compareAndSetDesired job expected desired).bind fun registry => registry.loadJob job

/-- Cancel.  The copy a run carries is not loaded again, and the reply shows the
record as the change of the desired state returned it. -/
def cancel (p : Publisher δ) (job expected : ℕ) (refusal : Option AppError) :
    Except AppError (JobView δ) × Publisher δ :=
  let swapped := swappedRecord p.actor.registry job expected .cancelled
  let answer := p.actor.cancel job expected refusal
  let p := { p with actor := answer.2 }
  match answer.1 with
  | some e => (.error e, p)
  | none =>
      let p := p.broadcastRecord snapshot job
      (swapped.bind fun record => (p.actor.registry.loadJob job).map fun current =>
        jobView job record current.currentAttemptId (p.seqOf job) none, p)

/-- `retry`, with its milestones and the view it replies. -/
def retry (p : Publisher δ) (job expected : ℕ) (refusal : Option LaunchRefusal) :
    Except AppError (JobView δ) × Publisher δ :=
  match p.actor.registry.loadJob job with
  | .error e => (.error e, p)
  | .ok record =>
      if !record.status.isTerminal then (.error .invalidTransition, p)
      else
        match p.actor.registry.compareAndSetDesired job expected .running with
        | .error e => (.error e, p)
        | .ok registry =>
            let p := p.withRegistry registry
            if p.actor.full then
              match p.actor.registry.markStatus job .queued with
              | .error e => (.error e, p)
              | .ok registry =>
                  let p := ((p.withRegistry registry).withQueue
                    (p.actor.queue ++ [job])).broadcastRecord snapshot job
                  (p.viewOf job 0, p)
            else
              let answer := p.launchJob snapshot key job .retry none refusal
              match answer.1 with
              | some e => (.error e, answer.2)
              | none =>
                  let p := answer.2.broadcastRecord snapshot job
                  (p.viewOf job 0, p)

/-! ### Completions and samples -/

/-- A queued job is launched, or goes back to the queue. -/
def promoteOne (p : Publisher δ) (job : ℕ) (refusal : Option LaunchRefusal) : Publisher δ :=
  if p.actor.full then p.withQueue (p.actor.queue ++ [job])
  else
    match p.actor.registry.loadJob job with
    | .error _ => p
    | .ok record =>
        if record.status.isTerminal then p
        else
          match record.desiredState with
          | .paused => p.withQueue (p.actor.queue ++ [job])
          | .cancelled =>
              match p.actor.registry.markStatus job .cancelled with
              | .error _ => p.broadcastRecord snapshot job
              | .ok registry => (p.withRegistry registry).broadcastRecord snapshot job
          | .running =>
              (p.launchJob snapshot key job .initial record.currentAttemptId refusal).2

/-- All queued jobs in their order. -/
def promoteLoop (refusals : ℕ → Option LaunchRefusal) : ℕ → List ℕ → Publisher δ → Publisher δ
  | _, [], p => p
  | n, job :: rest, p =>
      promoteLoop refusals (n + 1) rest (p.promoteOne snapshot key job (refusals n))

/-- The outcome is recorded and the last view of the run published; what is left
is to drop the run and to promote. -/
def finish (p : Publisher δ) (job attempt : ℕ) (outcome : EngineOutcome) : Publisher δ :=
  let p := p.withRegistry (p.actor.registry.recordOutcome attempt (p.actor.attemptOutcome outcome))
  let p := if p.actor.active.contains job then
    p.setSeq job (min ((p.copies job).seq + 1) maxSampleSeq) else p
  p.broadcastRecord snapshot job

/-- The run of the job is dropped, and the queue taken for promotion. -/
def dropRun (p : Publisher δ) (job : ℕ) : Publisher δ :=
  { p with actor := { p.actor with active := p.actor.active.erase job, queue := [] } }

/-- `finalize`: the run ends, and queued jobs take its place. -/
def finalize (p : Publisher δ) (job attempt : ℕ) (outcome : EngineOutcome)
    (refusals : ℕ → Option LaunchRefusal) : Publisher δ :=
  promoteLoop snapshot key refusals 0 p.actor.queue
    ((p.finish snapshot job attempt outcome).dropRun job)

/-- One run is sampled: its number advances, and its copy is published. -/
def sampleRun (p : Publisher δ) (job attempt : ℕ) : Publisher δ :=
  let p := p.setSeq job (((p.copies job).seq + 1) % (maxSampleSeq + 1))
  p.publish (jobView job (p.copies job).job (some attempt) (p.copies job).seq
    (some (snapshot job p.published.length)))

/-- The order in which the runs are visited does not matter for any one job. -/
def sample (p : Publisher δ) : Publisher δ :=
  p.actor.active.entries.foldl (fun p run => p.sampleRun snapshot run.1 run.2) p

end Publisher

/-! ### Steps -/

/-- What the actor receives. -/
inductive ViewEvent
  | sample
  | enqueue (job : ℕ) (refusal : Option LaunchRefusal)
  | pause (job expected : ℕ) (refusal : Option AppError)
  | resume (job expected : ℕ) (refusal : Option AppError)
  | cancel (job expected : ℕ) (refusal : Option AppError)
  | retry (job expected : ℕ) (refusal : Option LaunchRefusal)
  | completed (job attempt : ℕ) (outcome : EngineOutcome) (refusals : ℕ → Option LaunchRefusal)
  | recoverEnqueue (refusal : Option LaunchRefusal)
  /-- A step that publishes nothing and replies with no view. -/
  | quiet (e : SupervisorEvent)

/-- The events that publish nothing. -/
def SupervisorEvent.isQuiet : SupervisorEvent → Bool
  | .insertJob _ | .updateLimits _ | .shutdown => true
  | .recoverList | .recoverClassify | .recoverBegin => true
  | _ => false

namespace Publisher

variable {δ : Type*} (snapshot : ℕ → ℕ → δ) (key : ℕ)

/-- The reply to a command about the job is sent. -/
def replied (job : ℕ) (answer : Except AppError (JobView δ) × Publisher δ) : Publisher δ :=
  { answer.2 with reply := some (job, answer.1) }

/-- `replied`, noting the job as accepted when the command succeeded. -/
def accept (job : ℕ) (answer : Except AppError (JobView δ) × Publisher δ) : Publisher δ :=
  match answer.1 with
  | .ok _ => replied job (answer.1,
      { answer.2 with actor := { answer.2.actor with accepted := job :: answer.2.actor.accepted } })
  | .error _ => replied job answer

/-- The completion of a run is taken from the stream. -/
def takeCompletion (p : Publisher δ) (job attempt : ℕ) : Publisher δ :=
  { p with actor := { p.actor with completions := p.actor.completions.erase (job, attempt) } }

/-- One command, completion, tick of the sampler or planner step. -/
def step (p : Publisher δ) : ViewEvent → Option (Publisher δ)
  | .sample => some { p.sample snapshot with reply := none }
  | .enqueue job refusal => some (accept job (p.enqueue snapshot key job none refusal))
  | .pause job expected refusal => some (replied job (p.pause snapshot job expected refusal))
  | .resume job expected refusal => some (accept job (p.resume snapshot job expected refusal))
  | .cancel job expected refusal => some (replied job (p.cancel snapshot job expected refusal))
  | .retry job expected refusal => some (accept job (p.retry snapshot key job expected refusal))
  | .completed job attempt outcome refusals =>
      if p.actor.completions.contains (job, attempt) then
        let p := p.takeCompletion job attempt
        some { p.finalize snapshot key job attempt outcome refusals with reply := none }
      else none
  | .recoverEnqueue refusal =>
      match p.actor.recovery, p.actor.stage with
      | (job, _) :: _, .enqueue attempt =>
          let p := accept job (p.enqueue snapshot key job (some attempt) refusal)
          some { p with actor := p.actor.recoverNext }
      | _, _ => none
  | .quiet e =>
      if e.isQuiet then
        (supervisorStep key p.actor e).map fun actor => { p with actor := actor, reply := none }
      else none

/-! ### The actor underneath -/

variable (p : Publisher δ) (job : ℕ)

@[simp] theorem withRegistry_actor (registry : Registry) :
    (p.withRegistry registry).actor = { p.actor with registry := registry } := rfl

@[simp] theorem withQueue_actor (queue : List ℕ) :
    (p.withQueue queue).actor = { p.actor with queue := queue } := rfl

@[simp] theorem setSeq_actor (seq : ℕ) : (p.setSeq job seq).actor = p.actor := rfl

@[simp] theorem broadcastRecord_actor : (p.broadcastRecord snapshot job).actor = p.actor := by
  unfold broadcastRecord
  split <;> rfl

@[simp] theorem refresh_actor : (p.refresh job).actor = p.actor := by
  unfold refresh
  split <;> rfl

/-- A launch answers and moves the actor as the actor does. -/
theorem launchJob_actor (reason : AttemptReason) (prebound : Option ℕ)
    (refusal : Option LaunchRefusal) :
    (p.launchJob snapshot key job reason prebound refusal).1 =
        (p.actor.launchJob key job reason prebound (refusal.map (·.error))).1 ∧
      (p.launchJob snapshot key job reason prebound refusal).2.actor =
        (p.actor.launchJob key job reason prebound (refusal.map (·.error))).2 := by
  rcases hlaunch : p.actor.launchJob key job reason prebound (refusal.map (·.error)) with
    ⟨_ | e, actor⟩ <;> simp only [launchJob, hlaunch]
  · simp
  · split_ifs <;> simp

/-- A job that was launched has a record. -/
theorem launchJob_row {reason : AttemptReason} {prebound : Option ℕ}
    {refusal : Option LaunchRefusal}
    (h : (p.launchJob snapshot key job reason prebound refusal).1 = none) :
    ∃ row, (p.launchJob snapshot key job reason prebound refusal).2.actor.registry.jobs.get? job =
      some row := by
  obtain ⟨hanswer, hactor⟩ := p.launchJob_actor snapshot key job reason prebound refusal
  rw [hactor]
  rw [hanswer] at h
  rcases hfor : p.actor.attemptFor key job reason prebound with e | ⟨attempt, r₁⟩
  · simp only [Actor.launchJob, hfor] at h
    cases h
  rcases hmark : r₁.markStatus job .active with e | r₂
  · simp only [Actor.launchJob, hfor, hmark] at h
    cases h
  rcases refusal with _ | refusal <;> simp only [Actor.launchJob, hfor, hmark] at h ⊢
  · obtain ⟨old, -, hrow⟩ := Registry.markStatus_row hmark
    exact ⟨_, hrow⟩
  · cases h

theorem viewOf_eq {row : JobRecord} (h : p.actor.registry.jobs.get? job = some row) (seq : ℕ) :
    p.viewOf job seq = .ok (jobView job row row.currentAttemptId seq none) := by
  unfold viewOf Registry.loadJob
  rw [h]
  rfl

/-- The command succeeds where the actor's does, and moves the actor alike. -/
structure Agrees (answer : Except AppError (JobView δ) × Publisher δ)
    (answer' : Option AppError × Actor) : Prop where
  actor : answer.2.actor = answer'.2
  isOk : answer.1.isOk = answer'.1.isNone

variable {p job}

theorem Agrees.replied {answer : Except AppError (JobView δ) × Publisher δ}
    {answer' : Option AppError × Actor} (h : Agrees answer answer') :
    (Publisher.replied job answer).actor = answer'.2 := h.actor

theorem Agrees.accept {answer : Except AppError (JobView δ) × Publisher δ}
    {answer' : Option AppError × Actor} (h : Agrees answer answer') :
    (Publisher.accept job answer).actor = Actor.accept job answer' := by
  obtain ⟨hactor, hok⟩ := h
  unfold Publisher.accept Actor.accept
  rcases answer with ⟨e | view, q⟩ <;> rcases answer' with ⟨_ | e', s⟩ <;> cases hactor <;>
    first | rfl | cases hok

/-- A reply that shows the record of the job, which there is. -/
theorem agrees_viewOf {actor : Actor} {row : JobRecord} (hactor : p.actor = actor)
    (hrow : actor.registry.jobs.get? job = some row) (seq : ℕ) :
    Agrees (p.viewOf job seq, p) (none, actor) := by
  subst hactor
  rw [viewOf_eq p job hrow]
  exact ⟨rfl, rfl⟩

/-- A launch and its reply. -/
theorem agrees_launchJob {answer : Except AppError (JobView δ) × Publisher δ}
    (reason : AttemptReason) (prebound : Option ℕ) (refusal : Option LaunchRefusal)
    (hfail : ∀ e, (p.launchJob snapshot key job reason prebound refusal).1 = some e →
      answer = (.error e, (p.launchJob snapshot key job reason prebound refusal).2))
    (hdone : (p.launchJob snapshot key job reason prebound refusal).1 = none →
      ∃ q, q.actor = (p.launchJob snapshot key job reason prebound refusal).2.actor ∧
        answer = (q.viewOf job 0, q)) :
    Agrees answer (p.actor.launchJob key job reason prebound (refusal.map (·.error))) := by
  obtain ⟨hanswer, hactor⟩ := p.launchJob_actor snapshot key job reason prebound refusal
  rcases hlaunch : (p.launchJob snapshot key job reason prebound refusal).1 with _ | e
  · obtain ⟨row, hrow⟩ := p.launchJob_row snapshot key job hlaunch
    obtain ⟨q, hq, rfl⟩ := hdone hlaunch
    obtain ⟨hqactor, hqok⟩ := agrees_viewOf (hq.trans hactor) (hactor ▸ hrow) 0
    exact ⟨hqactor, by rw [hqok, ← hanswer, hlaunch]⟩
  · rw [hfail e hlaunch]
    exact ⟨hactor, by rw [← hanswer, hlaunch]; rfl⟩

theorem agrees_enqueue (prebound : Option ℕ) (refusal : Option LaunchRefusal) :
    Agrees (p.enqueue snapshot key job prebound refusal)
      (p.actor.enqueue key job prebound (refusal.map (·.error))) := by
  unfold Publisher.enqueue Actor.enqueue Registry.loadJob
  rcases hrow : p.actor.registry.jobs.get? job with _ | row <;> dsimp only
  · exact ⟨rfl, rfl⟩
  split_ifs with hterm hfull
  · exact ⟨rfl, rfl⟩
  · rw [viewOf_eq p job hrow]
    exact ⟨rfl, rfl⟩
  · refine agrees_launchJob snapshot key .initial prebound refusal (fun e he => ?_) fun hnone => ?_
    · rw [he]
    · exact ⟨_, rfl, by rw [hnone]⟩

/-- A control does to the records what it does without a publisher. -/
theorem agrees_control (expected : ℕ) (desired : DesiredState) (status : DurableJobStatus)
    (refusal : Option AppError) :
    Agrees (p.control snapshot job expected desired status refusal)
      (p.actor.control job expected desired status refusal) := by
  rcases hcontrol : p.actor.control job expected desired status refusal with ⟨_ | e, actor⟩ <;>
    simp only [Publisher.control, hcontrol]
  · -- the command took the version, so the job has a record
    obtain ⟨row, hrow⟩ : ∃ row, actor.registry.jobs.get? job = some row := by
      rcases Actor.control_cases p.actor job expected desired status refusal with
        ⟨e, heq⟩ | ⟨r₁, hset, ⟨e, heq⟩ | ⟨-, heq⟩ | ⟨-, r₂, hmark, heq⟩⟩ <;>
        rw [hcontrol] at heq <;> cases heq
      · obtain ⟨old, -, hrow⟩ := Registry.compareAndSetDesired_row hset
        exact ⟨_, hrow⟩
      · obtain ⟨old, -, hrow⟩ := Registry.markStatus_row hmark
        exact ⟨_, hrow⟩
    refine agrees_viewOf ?_ hrow _
    split_ifs <;> simp
  · exact ⟨rfl, rfl⟩

/-- So does a cancellation. -/
theorem agrees_cancel (expected : ℕ) (refusal : Option AppError) :
    Agrees (p.cancel snapshot job expected refusal) (p.actor.cancel job expected refusal) := by
  rcases hcancel : p.actor.cancel job expected refusal with ⟨_ | e, actor⟩ <;>
    simp only [Publisher.cancel, hcancel]
  · rcases Actor.cancel_cases p.actor job expected refusal with ⟨e, heq⟩ | ⟨r₁, hset, hcases⟩
    · rw [hcancel] at heq
      cases heq
    rw [hcancel] at hcases
    obtain ⟨old, -, hrow₁⟩ := Registry.compareAndSetDesired_row hset
    obtain ⟨row, hrow⟩ : ∃ row, actor.registry.jobs.get? job = some row := by
      rcases hcases with rfl | ⟨-, r₂, rfl | hmark, rfl⟩
      · exact ⟨_, hrow₁⟩
      · exact ⟨_, hrow₁⟩
      · obtain ⟨old, -, hrow⟩ := Registry.markStatus_row hmark
        exact ⟨_, hrow⟩
    refine ⟨by simp, ?_⟩
    simp only [swappedRecord, hset, Except.bind, Registry.loadJob, hrow₁, broadcastRecord_actor,
      hrow]
    rfl
  · exact ⟨rfl, rfl⟩

/-- So does a retry. -/
theorem agrees_retry (expected : ℕ) (refusal : Option LaunchRefusal) :
    Agrees (p.retry snapshot key job expected refusal)
      (p.actor.retry key job expected (refusal.map (·.error))) := by
  unfold Publisher.retry Actor.retry Registry.loadJob
  rcases p.actor.registry.jobs.get? job with _ | row <;> dsimp only
  · exact ⟨rfl, rfl⟩
  split_ifs with hterm
  · exact ⟨rfl, rfl⟩
  rcases p.actor.registry.compareAndSetDesired job expected .running with e | r₁ <;> dsimp only
  · exact ⟨rfl, rfl⟩
  rw [withRegistry_actor]
  split_ifs with hfull
  · rcases hmark : r₁.markStatus job .queued with e | r₂ <;> dsimp only
    · exact ⟨rfl, rfl⟩
    · obtain ⟨old, -, hrow⟩ := Registry.markStatus_row hmark
      exact agrees_viewOf (by simp) hrow 0
  · refine agrees_launchJob (p := p.withRegistry r₁) snapshot key .retry none refusal
      (fun e he => ?_) fun hnone => ?_
    · rw [he]
    · exact ⟨_, broadcastRecord_actor .., by rw [hnone]⟩

theorem promoteOne_actor (refusal : Option LaunchRefusal) :
    (p.promoteOne snapshot key job refusal).actor =
      p.actor.promoteOne key job (refusal.map (·.error)) := by
  unfold Publisher.promoteOne Actor.promoteOne Registry.loadJob
  split_ifs with hfull
  · rfl
  rcases p.actor.registry.jobs.get? job with _ | row <;> dsimp only
  split_ifs with hterm
  · rfl
  rcases row.desiredState with _ | _ | _ <;> dsimp only
  · exact (p.launchJob_actor snapshot key job .initial _ refusal).2
  · rfl
  · rcases p.actor.registry.markStatus job .cancelled with e | r₁ <;> simp

theorem promoteLoop_actor (refusals : ℕ → Option LaunchRefusal) (n : ℕ) (queue : List ℕ) :
    (promoteLoop snapshot key refusals n queue p).actor =
      Actor.promoteLoop key (fun n => (refusals n).map (·.error)) n queue p.actor := by
  induction queue generalizing n p with
  | nil => rfl
  | cons job rest ih =>
    show (promoteLoop snapshot key refusals (n + 1) rest _).actor = _
    rw [ih, promoteOne_actor]
    rfl

theorem finish_actor (attempt : ℕ) (outcome : EngineOutcome) :
    (p.finish snapshot job attempt outcome).actor = { p.actor with
      registry := p.actor.registry.recordOutcome attempt (p.actor.attemptOutcome outcome) } := by
  unfold finish
  dsimp only
  split_ifs <;> simp

theorem finalize_actor (attempt : ℕ) (outcome : EngineOutcome)
    (refusals : ℕ → Option LaunchRefusal) :
    (p.finalize snapshot key job attempt outcome refusals).actor =
      p.actor.finalize key job attempt outcome fun n => (refusals n).map (·.error) := by
  unfold Publisher.finalize
  rw [promoteLoop_actor, dropRun, finish_actor]
  rfl

theorem sample_actor : (p.sample snapshot).actor = p.actor := by
  unfold sample
  generalize p.actor.active.entries = runs
  induction runs generalizing p with
  | nil => rfl
  | cons run runs ih =>
    rw [List.foldl_cons, ih]
    rfl

end Publisher

/-- What the actor sees of an event. -/
def ViewEvent.forget : ViewEvent → Option SupervisorEvent
  | .sample => none
  | .enqueue job refusal => some (.enqueue job (refusal.map (·.error)))
  | .pause job expected refusal => some (.pause job expected refusal)
  | .resume job expected refusal => some (.resume job expected refusal)
  | .cancel job expected refusal => some (.cancel job expected refusal)
  | .retry job expected refusal => some (.retry job expected (refusal.map (·.error)))
  | .completed job attempt outcome refusals =>
      some (.completed job attempt outcome fun n => (refusals n).map (·.error))
  | .recoverEnqueue refusal => some (.recoverEnqueue (refusal.map (·.error)))
  | .quiet e => some e

/-- **A sample leaves the actor alone, and every other step is one of the
actor's.** -/
theorem Publisher.step_actor {δ : Type*} {snapshot : ℕ → ℕ → δ} {key : ℕ} {p p' : Publisher δ}
    {e : ViewEvent} (h : p.step snapshot key e = some p') :
    (e.forget = none ∧ p'.actor = p.actor) ∨
      ∃ e', e.forget = some e' ∧ supervisorStep key p.actor e' = some p'.actor := by
  cases e with
  | sample =>
    cases h
    exact .inl ⟨rfl, sample_actor snapshot⟩
  | enqueue job refusal =>
    cases h
    exact .inr ⟨_, rfl, congrArg some (agrees_enqueue snapshot key none refusal).accept.symm⟩
  | pause job expected refusal =>
    cases h
    exact .inr ⟨_, rfl, congrArg some (agrees_control snapshot ..).replied.symm⟩
  | resume job expected refusal =>
    cases h
    exact .inr ⟨_, rfl, congrArg some (agrees_control snapshot ..).accept.symm⟩
  | cancel job expected refusal =>
    cases h
    exact .inr ⟨_, rfl, congrArg some (agrees_cancel snapshot ..).replied.symm⟩
  | retry job expected refusal =>
    cases h
    exact .inr ⟨_, rfl, congrArg some (agrees_retry snapshot key ..).accept.symm⟩
  | completed job attempt outcome refusals =>
    simp only [step] at h
    split_ifs at h with hmem
    cases h
    have hmem' : (job, attempt) ∈ p.actor.completions := List.contains_iff_mem.mp hmem
    refine .inr ⟨_, rfl, ?_⟩
    simp only [supervisorStep, if_pos hmem', finalize_actor]
    rfl
  | recoverEnqueue refusal =>
    simp only [step] at h
    split at h <;> cases h
    next job listed rest attempt hhead hstage =>
    refine .inr ⟨_, rfl, ?_⟩
    simp only [supervisorStep, hhead, hstage]
    rw [(agrees_enqueue snapshot key (some attempt) refusal).accept]
  | quiet e =>
    simp only [step] at h
    split_ifs at h
    obtain ⟨actor, hactor, rfl⟩ := Option.map_eq_some_iff.mp h
    exact .inr ⟨e, rfl, hactor⟩

end KDown
