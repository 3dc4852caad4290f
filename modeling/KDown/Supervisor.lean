/-
KDown/Supervisor.lean

The supervisor actor (app supervisor/mod.rs) and the startup recovery planner
(supervisor/recovery.rs).

The actor owns the queue, the map of active runs and the stream of completion
futures.  It handles one command or one completion at a time, so each handler
is one step.  The planner runs beside it: it lists the recoverable jobs, and
then marks, begins and enqueues them one by one with the actor running in
between.

* Whether a launch succeeds, what an engine handle answers and how a run ends
  are carried by the events.
* `completions` holds the engine runs whose completion was not processed yet.
* `launches` and `accepted` are history: what every launch looked like when it
  was made, and which jobs a command was accepted for.

Views, broadcasts, samples and the rate limit change nothing here.  Nothing
sends the command that reports a finished attempt directly, so completions come
from the stream only.
-/
import KDown.Registry
import KDown.Runs

namespace KDown

/-! ### State -/

/-- How an engine run ends. -/
inductive EngineOutcome
  | completed
  | failed (code : String) (detail : Option String)
  | cancelled
  deriving DecidableEq, Repr

/-- What a launch looked like when it was made. -/
structure LaunchRecord where
  job : ℕ
  attempt : ℕ
  /-- The record of the attempt. -/
  record : Option AttemptRecord
  /-- Engine runs alive before the launch. -/
  liveRuns : ℕ
  maxActive : ℕ
  deriving DecidableEq, Repr

/-- What the planner does next with the first job of its list. -/
inductive RecoveryStage
  | classify
  | begin
  | enqueue (attempt : ℕ)
  deriving DecidableEq, Repr

theorem RecoveryStage.classify_ne (attempt : ℕ) : RecoveryStage.classify ≠ .enqueue attempt := by
  intro h
  cases h

/-- The supervisor: the registry, its active runs, and the jobs that wait for a
slot. -/
structure Actor where
  registry : Registry
  /-- The attempt of each active run, by job. -/
  active : SortedMap ℕ ℕ
  queue : List ℕ
  maxActive : ℕ
  shuttingDown : Bool
  /-- Job and attempt of each run whose completion was not processed. -/
  completions : List (ℕ × ℕ)
  /-- The jobs of a recovery pass that are still to be handled, as listed. -/
  recovery : List (ℕ × JobRecord)
  stage : RecoveryStage
  launches : List LaunchRecord
  accepted : List ℕ

namespace Actor

variable (startupKey : ℕ)

/-- No slot is open. -/
def full (s : Actor) : Bool := s.shuttingDown || s.maxActive ≤ s.active.length

/-- Register a launched run. -/
def register (s : Actor) (job attempt : ℕ) : Actor :=
  { s with
    active := s.active.insert job attempt
    completions := s.completions ++ [(job, attempt)]
    launches := s.launches ++
      [⟨job, attempt, s.registry.attempts[attempt]?, s.completions.length, s.maxActive⟩] }

/-! ### Launching -/

/-- The attempt a launch runs under: the given one, or a new one. -/
def attemptFor (s : Actor) (job : ℕ) (reason : AttemptReason) :
    Option ℕ → Except AppError (ℕ × Registry)
  | some attempt => (s.registry.loadAttempt attempt).map fun _ => (attempt, s.registry)
  | none => s.registry.beginAttemptOnce job reason (s.registry.freshLaunchKey startupKey)

/-- Persist attempt and status, then launch.  `refusal` is the error of the
filename check, the destination or the engine. -/
def launchJob (s : Actor) (job : ℕ) (reason : AttemptReason) (prebound : Option ℕ)
    (refusal : Option AppError) : Option AppError × Actor :=
  match s.attemptFor startupKey job reason prebound with
  | .error e => (some e, s)
  | .ok (attempt, registry) =>
      match registry.markStatus job .active with
      -- the attempt is begun by now and stays unfinished
      | .error e => (some e, { s with registry := registry })
      | .ok registry =>
          match refusal with
          | some e =>
              (some e, { s with registry := registry.recordOutcome attempt (.failed e.code none) })
          | none => (none, { s with registry := registry }.register job attempt)

/-! ### Commands -/

/-- Admit a job: launch it if a slot is open, otherwise queue it. -/
def enqueue (s : Actor) (job : ℕ) (prebound : Option ℕ) (refusal : Option AppError) :
    Option AppError × Actor :=
  match s.registry.loadJob job with
  | .error e => (some e, s)
  | .ok record =>
      if record.status.isTerminal then (some .invalidTransition, s)
      -- neither the active map nor the queue is searched for the job
      else if s.full then (none, { s with queue := s.queue ++ [job] })
      else s.launchJob startupKey job .initial prebound refusal

/-- Pause and resume: move the desired state, then tell a live run and mark the
status. -/
def control (s : Actor) (job expected : ℕ) (desired : DesiredState) (status : DurableJobStatus)
    (refusal : Option AppError) : Option AppError × Actor :=
  match s.registry.compareAndSetDesired job expected desired with
  | .error e => (some e, s)
  | .ok registry =>
      let s := { s with registry := registry }
      if s.active.contains job then
        match refusal with
        | some e => (some e, s)
        | none =>
            match s.registry.markStatus job status with
            | .error e => (some e, s)
            | .ok registry => (none, { s with registry := registry })
      else (none, s)

/-- `pause`. -/
def pause (s : Actor) (job expected : ℕ) (refusal : Option AppError) : Option AppError × Actor :=
  s.control job expected .paused .paused refusal

/-- `resume`. -/
def resume (s : Actor) (job expected : ℕ) (refusal : Option AppError) : Option AppError × Actor :=
  s.control job expected .running .active refusal

/-- Cancel a live run through its handle, a job without one at once. -/
def cancel (s : Actor) (job expected : ℕ) (refusal : Option AppError) : Option AppError × Actor :=
  match s.registry.loadJob job with
  | .error e => (some e, s)
  | .ok record =>
      if record.status.isTerminal then (some .invalidTransition, s)
      else
        match s.registry.compareAndSetDesired job expected .cancelled with
        | .error e => (some e, s)
        | .ok registry =>
            let s := { s with registry := registry }
            -- the completion of the run will record the cancellation
            if s.active.contains job then (refusal, s)
            else
              let s := { s with queue := s.queue.filter (· ≠ job) }
              match s.registry.markStatus job .cancelled with
              | .error e => (some e, s)
              | .ok registry => (none, { s with registry := registry })

/-- A new attempt on a terminal job. -/
def retry (s : Actor) (job expected : ℕ) (refusal : Option AppError) : Option AppError × Actor :=
  match s.registry.loadJob job with
  | .error e => (some e, s)
  | .ok record =>
      if !record.status.isTerminal then (some .invalidTransition, s)
      else
        match s.registry.compareAndSetDesired job expected .running with
        | .error e => (some e, s)
        | .ok registry =>
            let s := { s with registry := registry }
            if s.full then
              match s.registry.markStatus job .queued with
              | .error e => (some e, s)
              | .ok registry => (none, { s with registry := registry, queue := s.queue ++ [job] })
            else s.launchJob startupKey job .retry none refusal

/-! ### Completions -/

/-- The outcome recorded for the end of a run.  A cancellation during shutdown
is an interruption. -/
def attemptOutcome (s : Actor) : EngineOutcome → AttemptOutcome
  | .completed => .completed
  | .failed code detail => .failed code detail
  | .cancelled => if s.shuttingDown then .interrupted else .cancelled

/-- One job of the queue: it stays queued, is dropped, or is launched under its
current attempt. -/
def promoteOne (s : Actor) (job : ℕ) (refusal : Option AppError) : Actor :=
  if s.full then { s with queue := s.queue ++ [job] }
  else
    match s.registry.loadJob job with
    | .error _ => s
    | .ok record =>
        if record.status.isTerminal then s
        else
          match record.desiredState with
          | .paused => { s with queue := s.queue ++ [job] }
          | .cancelled =>
              match s.registry.markStatus job .cancelled with
              | .error _ => s
              | .ok registry => { s with registry := registry }
          -- an attempt from recovery, or whichever the job ran under last
          | .running =>
              (s.launchJob startupKey job .initial record.currentAttemptId refusal).2

/-- The loop over the queue as it was taken; `queue` collects what stays. -/
def promoteLoop (refusals : ℕ → Option AppError) : ℕ → List ℕ → Actor → Actor
  | _, [], s => s
  | n, job :: rest, s =>
      promoteLoop refusals (n + 1) rest (s.promoteOne startupKey job (refusals n))

/-- Launch queued jobs while there are slots. -/
def promoteQueued (s : Actor) (refusals : ℕ → Option AppError) : Actor :=
  promoteLoop startupKey refusals 0 s.queue { s with queue := [] }

/-- Record the outcome of a run, drop the job's entry and promote. -/
def finalize (s : Actor) (job attempt : ℕ) (outcome : EngineOutcome)
    (refusals : ℕ → Option AppError) : Actor :=
  let s := { s with
    registry := s.registry.recordOutcome attempt (s.attemptOutcome outcome)
    active := s.active.erase job }
  s.promoteQueued startupKey refusals

/-! ### Startup recovery -/

/-- What startup does with a job. -/
inductive RecoveryAction
  | resume
  | keepPaused
  | keepTerminal
  deriving DecidableEq, Repr

/-- What recovery does with a job. -/
def classify (job : JobRecord) : RecoveryAction :=
  match job.desiredState, job.status with
  | .running, .completed | .running, .cancelled => .keepTerminal
  | .running, _ => .resume
  | .paused, _ => .keepPaused
  | .cancelled, _ => .keepTerminal

/-- Mark the job unless it was listed with the status already; the pass ends at
a refusal. -/
def recoverMark (s : Actor) (job : ℕ) (listed : JobRecord) (status : DurableJobStatus)
    (onward : Actor → Actor) : Actor :=
  if listed.status = status then onward s
  else
    match s.registry.markStatus job status with
    | .error _ => { s with recovery := [], stage := .classify }
    | .ok registry => onward { s with registry := registry }

/-- The planner is done with the first job of its list. -/
def recoverNext (s : Actor) : Actor := { s with recovery := s.recovery.tail, stage := .classify }

/-- Recovery of one job, by what its row asks for. -/
def recoverClassify (s : Actor) (job : ℕ) (listed : JobRecord) : Actor :=
  match classify listed with
  | .resume => s.recoverMark job listed .recovering fun s => { s with stage := .begin }
  | .keepPaused => s.recoverMark job listed .paused recoverNext
  | .keepTerminal => s.recoverNext

/-- Begin the recovery attempt; only its creator goes on to enqueue the job. -/
def recoverBegin (s : Actor) (job : ℕ) : Actor :=
  match s.registry.beginRecoveryAttemptOnce job startupKey with
  | .error _ => { s with recovery := [], stage := .classify }
  | .ok ((attempt, created), registry) =>
      let s := { s with registry := registry }
      if created then { s with stage := .enqueue attempt } else s.recoverNext

end Actor

/-! ### Steps -/

/-- What the supervisor receives. -/
inductive SupervisorEvent
  /-- A new job is persisted. -/
  | insertJob (job : ℕ)
  | enqueue (job : ℕ) (refusal : Option AppError)
  | pause (job expected : ℕ) (refusal : Option AppError)
  | resume (job expected : ℕ) (refusal : Option AppError)
  | cancel (job expected : ℕ) (refusal : Option AppError)
  | retry (job expected : ℕ) (refusal : Option AppError)
  | updateLimits (activeDownloads : ℕ)
  /-- The completion of a run is processed. -/
  | completed (job attempt : ℕ) (outcome : EngineOutcome) (refusals : ℕ → Option AppError)
  | shutdown
  /-- A recovery pass lists the recoverable jobs. -/
  | recoverList
  | recoverClassify
  | recoverBegin
  | recoverEnqueue (refusal : Option AppError)

/-- Note the job as accepted when its command succeeded. -/
def Actor.accept (job : ℕ) (answer : Option AppError × Actor) : Actor :=
  match answer.1 with
  | none => { answer.2 with accepted := job :: answer.2.accepted }
  | some _ => answer.2

/-- The id is in use; a new job gets one that is not. -/
def Actor.knows (s : Actor) (job : ℕ) : Bool :=
  s.registry.jobs.contains job || s.queue.contains job || s.accepted.contains job

theorem Actor.get?_of_not_knows {s : Actor} {job : ℕ} (h : ¬ s.knows job = true) :
    s.registry.jobs.get? job = none ∧ job ∉ s.queue ∧ job ∉ s.accepted := by
  simpa [Actor.knows, SortedMap.contains, and_assoc] using h

open Actor in
/-- One command, completion or planner step. -/
def supervisorStep (startupKey : ℕ) (s : Actor) : SupervisorEvent → Option Actor
  | .insertJob job =>
      if s.knows job then none
      else some { s with registry := s.registry.insertJob job }
  | .enqueue job refusal => some (accept job (s.enqueue startupKey job none refusal))
  | .pause job expected refusal => some (s.pause job expected refusal).2
  | .resume job expected refusal => some (accept job (s.resume job expected refusal))
  | .cancel job expected refusal => some (s.cancel job expected refusal).2
  | .retry job expected refusal => some (accept job (s.retry startupKey job expected refusal))
  | .updateLimits activeDownloads => some { s with maxActive := activeDownloads }
  | .completed job attempt outcome refusals =>
      if (job, attempt) ∈ s.completions then
        some ({ s with completions := s.completions.erase (job, attempt) }.finalize startupKey
          job attempt outcome refusals)
      else none
  | .shutdown => some { s with shuttingDown := true }
  | .recoverList =>
      if s.recovery.isEmpty then
        some { s with recovery := s.registry.listRecoverable, stage := .classify }
      else none
  | .recoverClassify =>
      match s.recovery, s.stage with
      | (job, listed) :: _, .classify => some (s.recoverClassify job listed)
      | _, _ => none
  | .recoverBegin =>
      match s.recovery, s.stage with
      | (job, _) :: _, .begin => some (s.recoverBegin startupKey job)
      | _, _ => none
  | .recoverEnqueue refusal =>
      match s.recovery, s.stage with
      | (job, _) :: _, .enqueue attempt =>
          some (accept job (s.enqueue startupKey job (some attempt) refusal)).recoverNext
      | _, _ => none

/-- Every job's current attempt exists and is its own. -/
def Registry.WellFormed (r : Registry) : Prop :=
  ∀ job row attempt, r.jobs.get? job = some row → row.currentAttemptId = some attempt →
    r.Owned attempt job

/-- A process starts with a well-formed registry, whatever earlier processes
left in it, and with nothing running. -/
structure Actor.Starts (s : Actor) : Prop where
  wellFormed : s.registry.WellFormed
  active : s.active = .empty
  queue : s.queue = []
  running : s.shuttingDown = false
  completions : s.completions = []
  recovery : s.recovery = []
  stage : s.stage = .classify
  launches : s.launches = []
  accepted : s.accepted = []

/-! ### What a launch does -/

namespace Registry

variable {r r' : Registry} {j : ℕ}

/-- A job's record changed, but not its current attempt. -/
theorem WellFormed.putJob (h : r.WellFormed) {old row : JobRecord} (hold : r.jobs.get? j = some old)
    (hcur : row.currentAttemptId = old.currentAttemptId) : (r.putJob j row).WellFormed := by
  intro k row' a hrow ha
  rcases eq_or_ne k j with rfl | hne
  · simp only [Registry.putJob, SortedMap.get?_insert_self, Option.some.injEq] at hrow
    exact h k old a hold (by rw [← hcur, hrow]; exact ha)
  · rw [Registry.putJob, SortedMap.get?_insert_of_ne _ _ hne] at hrow
    exact h k row' a hrow ha

theorem WellFormed.markStatus (h : r.WellFormed) {status : DurableJobStatus}
    (hmark : r.markStatus j status = .ok r') : r'.WellFormed := by
  obtain ⟨job, hj, -, rfl⟩ := markStatus_eq_ok hmark
  exact h.putJob hj rfl

theorem WellFormed.compareAndSetDesired (h : r.WellFormed) {expected : ℕ}
    {desired : DesiredState} (hset : r.compareAndSetDesired j expected desired = .ok r') :
    r'.WellFormed := by
  obtain ⟨job, hj, -, rfl⟩ := compareAndSetDesired_eq_ok hset
  exact h.putJob hj rfl

theorem WellFormed.insertJob (h : r.WellFormed) (j : ℕ) : (r.insertJob j).WellFormed := by
  intro k row a hrow ha
  rcases eq_or_ne k j with rfl | hne
  · simp only [Registry.insertJob, Registry.putJob, SortedMap.get?_insert_self,
      Option.some.injEq] at hrow
    subst hrow
    cases ha
  · rw [Registry.insertJob, Registry.putJob, SortedMap.get?_insert_of_ne _ _ hne] at hrow
    exact h k row a hrow ha

theorem WellFormed.insertAttempt (h : r.WellFormed) {job : JobRecord}
    (hj : r.jobs.get? j = some job) (reason : AttemptReason) (key : ℕ) :
    (r.insertAttempt j job reason key).WellFormed := by
  intro k row a hrow ha
  rcases eq_or_ne k j with rfl | hne
  · simp only [Registry.insertAttempt, SortedMap.get?_insert_self, Option.some.injEq] at hrow
    subst hrow
    cases ha
    exact (insertAttempt_open r k job reason key).owned
  · have hrow' : r.jobs.get? k = some row := by
      rwa [Registry.insertAttempt, SortedMap.get?_insert_of_ne _ _ hne] at hrow
    exact (touches_insertAttempt hj reason key).owned (h k row a hrow' ha)

/-- Recorded outcomes keep the registry well-formed. -/
theorem WellFormed.recordOutcome (h : r.WellFormed) {a : ℕ} {attempt : AttemptRecord}
    (hat : r.attempts[a]? = some attempt) (outcome : AttemptOutcome) :
    (r.recordOutcome a outcome).WellFormed := by
  intro k row b hrow hb
  obtain ⟨old, hold, -, hcur⟩ := recordOutcome_row hrow
  exact (touches_recordOutcome outcome hat rfl).owned (h k old b hold (hcur ▸ hb))

theorem WellFormed.beginRecovery (h : r.WellFormed) {startupKey a : ℕ} {created : Bool}
    (hbegin : r.beginRecoveryAttemptOnce j startupKey = .ok ((a, created), r')) :
    r'.WellFormed := by
  rcases beginRecoveryAttemptOnce_eq_ok hbegin with ⟨-, rfl⟩ | ⟨-, -, job, r₁, hj, hr₁, -, rfl⟩
  · exact h
  · refine WellFormed.insertAttempt (fun k row b hrow hb => ?_) (by rw [hr₁]; exact hj) _ _
    subst hr₁
    exact (touches_interrupt r j).owned (h k row b hrow hb)

end Registry

/-- What a launch of a job changes in the registry. -/
structure LaunchEffect (r r' : Registry) (job : ℕ) (prebound : Option ℕ) : Prop where
  touches : r.Touches r' job
  /-- Only the attempt it runs under. -/
  kept : ∀ (a : ℕ) (row : AttemptRecord), r.attempts[a]? = some row → prebound ≠ some a →
    r'.attempts[a]? = some row
  desired : ∀ row', r'.jobs.get? job = some row' →
    ∃ row, r.jobs.get? job = some row ∧ row'.desiredState = row.desiredState
  wellFormed : r.WellFormed → r'.WellFormed

theorem LaunchEffect.markStatus {r r₁ r₂ : Registry} {job : ℕ} {prebound : Option ℕ}
    (h : LaunchEffect r r₁ job prebound)
    {status : DurableJobStatus} (hmark : r₁.markStatus job status = .ok r₂) :
    LaunchEffect r r₂ job prebound := by
  obtain ⟨old, hold, -, rfl⟩ := Registry.markStatus_eq_ok hmark
  refine ⟨h.touches.trans (Registry.touches_markStatus hmark), h.kept, fun row' hrow' => ?_,
    fun hwf => (h.wellFormed hwf).markStatus hmark⟩
  simp only [Registry.putJob, SortedMap.get?_insert_self, Option.some.injEq] at hrow'
  obtain ⟨row, hrow, hdes⟩ := h.desired old hold
  exact ⟨row, hrow, by rw [← hdes, ← hrow']; rfl⟩

/-- Recording the failure of a launch on its own attempt. -/
theorem LaunchEffect.recordOutcome {r r₁ : Registry} {job : ℕ} {prebound : Option ℕ}
    (h : LaunchEffect r r₁ job prebound)
    {attempt : ℕ} (howned : r₁.Owned attempt job)
    (hattempt : prebound = some attempt ∨ r.attempts.length ≤ attempt)
    (outcome : AttemptOutcome) :
    LaunchEffect r (r₁.recordOutcome attempt outcome) job prebound := by
  obtain ⟨row, hat, hjob⟩ := howned.exists
  refine ⟨h.touches.trans (Registry.touches_recordOutcome outcome hat hjob), ?_, ?_,
    fun hwf => (h.wellFormed hwf).recordOutcome hat outcome⟩
  · intro a row' hrow' hne
    have hlt := (List.getElem?_eq_some_iff.mp hrow').1
    rw [Registry.recordOutcome_attempts_of_ne outcome, h.kept a row' hrow' hne]
    rintro rfl
    rcases hattempt with hsame | hle
    · exact hne hsame
    · omega
  · intro row' hrow'
    obtain ⟨old, hold, hdes, -⟩ := Registry.recordOutcome_row hrow'
    obtain ⟨first, hfirst, hdes'⟩ := h.desired old hold
    exact ⟨first, hfirst, hdes.trans hdes'⟩

namespace Actor

variable (key : ℕ) {s : Actor} {job : ℕ} {prebound : Option ℕ}

/-- The attempt of a launch: a new open one, or the given one. -/
theorem attemptFor_spec {record : JobRecord} (hjob : s.registry.jobs.get? job = some record)
    (hpre : ∀ a, prebound = some a → s.registry.Owned a job) (reason : AttemptReason) :
    ∃ attempt r', s.attemptFor key job reason prebound = .ok (attempt, r') ∧
      LaunchEffect s.registry r' job prebound ∧ r'.Owned attempt job ∧
      (prebound = some attempt ∧ r' = s.registry ∨
        prebound = none ∧ attempt = s.registry.attempts.length ∧ r'.Open attempt job) := by
  rcases prebound with _ | a
  · refine ⟨_, _, Registry.beginAttemptOnce_fresh hjob reason key, ⟨?_, ?_, ?_, ?_⟩,
      (Registry.insertAttempt_open ..).owned, .inr ⟨rfl, rfl, Registry.insertAttempt_open ..⟩⟩
    · exact Registry.touches_insertAttempt hjob _ _
    · -- appending moves no attempt
      intro a row hrow _
      have hlt := (List.getElem?_eq_some_iff.mp hrow).1
      simpa [Registry.insertAttempt, List.getElem?_append_left hlt] using hrow
    · intro row' hrow'
      simp only [Registry.insertAttempt, SortedMap.get?_insert_self, Option.some.injEq] at hrow'
      exact ⟨record, hjob, hrow' ▸ rfl⟩
    · exact fun hwf => hwf.insertAttempt hjob _ _
  · have howned := hpre a rfl
    obtain ⟨attempt, hat, -⟩ := howned.exists
    refine ⟨a, s.registry, ?_, ⟨.refl _ _, fun _ _ h _ => h, fun row h => ⟨row, h, rfl⟩, id⟩,
      howned, .inl ⟨rfl, rfl⟩⟩
    simp only [attemptFor, Registry.loadAttempt, hat]
    rfl

/-- **What a launch does.**  It registers a run under an attempt of the job that
is active then; or it leaves everything but the registry as it was, and an open
attempt leaves the job failed unless its version reached the cap. -/
theorem launchJob_spec {record : JobRecord} (hjob : s.registry.jobs.get? job = some record)
    (hpre : ∀ a, prebound = some a → s.registry.Owned a job) (reason : AttemptReason)
    (refusal : Option AppError) :
    ∃ r', LaunchEffect s.registry r' job prebound ∧
      ((∃ attempt row,
          s.launchJob key job reason prebound refusal =
            (none, { s with registry := r' }.register job attempt) ∧
          r'.jobs.get? job = some row ∧ row.status = .active ∧ r'.Owned attempt job ∧
          (prebound = some attempt ∨ prebound = none ∧ attempt = s.registry.attempts.length) ∧
          ((∀ a, prebound = some a → s.registry.Open a job) → r'.Open attempt job)) ∨
        (∃ e, s.launchJob key job reason prebound refusal = (some e, { s with registry := r' }) ∧
          ((∀ a, prebound = some a → s.registry.Open a job) →
            ∀ row, r'.jobs.get? job = some row → row.controlVersion < maxControlVersion →
              row.status = .failed))) := by
  obtain ⟨attempt, r₁, hfor, heffect, howned, hkind⟩ := attemptFor_spec key hjob hpre reason
  have hopen : (∀ a, prebound = some a → s.registry.Open a job) → r₁.Open attempt job := by
    rcases hkind with ⟨hsame, rfl⟩ | ⟨-, -, hnew⟩
    · exact fun h => h attempt hsame
    · exact fun _ => hnew
  unfold launchJob
  rw [hfor]
  simp only
  rcases hmark : r₁.markStatus job .active with e | r₂ <;> simp only
  · -- the version stands at its cap: nothing was marked
    refine ⟨r₁, heffect, .inr ⟨e, rfl, fun _ row hrow hv => ?_⟩⟩
    exact absurd hv (not_lt.mpr (Registry.markStatus_eq_error hmark row hrow))
  have heffect₂ := heffect.markStatus hmark
  -- marking the job changes no attempt
  have hattempts : r₂.attempts = r₁.attempts := by
    obtain ⟨old, -, -, rfl⟩ := Registry.markStatus_eq_ok hmark
    rfl
  have howned₂ : r₂.Owned attempt job := by
    unfold Registry.Owned
    rw [hattempts]
    exact howned
  have hopen₂ : (∀ a, prebound = some a → s.registry.Open a job) → r₂.Open attempt job := by
    intro h
    unfold Registry.Open
    rw [hattempts]
    exact hopen h
  cases refusal with
  | none =>
    obtain ⟨old, -, -, hr₂⟩ := Registry.markStatus_eq_ok hmark
    refine ⟨r₂, heffect₂, .inl ⟨attempt, Registry.withStatus old .active, rfl, ?_, rfl, howned₂,
      ?_, hopen₂⟩⟩
    · rw [hr₂]
      exact SortedMap.get?_insert_self ..
    · exact hkind.imp And.left fun h => ⟨h.1, h.2.1⟩
  | some e =>
    refine ⟨_, heffect₂.recordOutcome howned₂ ?_ (.failed e.code none), .inr ⟨e, rfl, ?_⟩⟩
    · exact hkind.imp And.left fun h => h.2.1.ge
    · intro h row hrow hv
      exact Registry.recordOutcome_status (hopen₂ h) rfl hrow hv

/-- A launch neither reads nor changes the queue. -/
theorem launchJob_queue (s : Actor) (queue : List ℕ) (job : ℕ) (reason : AttemptReason)
    (prebound : Option ℕ) (refusal : Option AppError) :
    ({ s with queue := queue }.launchJob key job reason prebound refusal).2 =
      { (s.launchJob key job reason prebound refusal).2 with queue := queue } := by
  have hfor : { s with queue := queue }.attemptFor key job reason prebound =
      s.attemptFor key job reason prebound := by
    cases prebound <;> rfl
  unfold launchJob
  rw [hfor]
  rcases s.attemptFor key job reason prebound with e | ⟨attempt, r₁⟩
  · rfl
  · rcases hmark : r₁.markStatus job .active with e | r₂ <;> simp only [hmark]
    cases refusal <;> rfl

theorem launchJob_keeps_queue (s : Actor) (job : ℕ) (reason : AttemptReason)
    (prebound : Option ℕ) (refusal : Option AppError) :
    (s.launchJob key job reason prebound refusal).2.queue = s.queue := by
  have h := congrArg Actor.queue (launchJob_queue key s s.queue job reason prebound refusal)
  exact h

/-! ### What a command does -/

/-- A job is refused, queued, or launched. -/
theorem enqueue_cases (s : Actor) (job : ℕ) (prebound : Option ℕ) (refusal : Option AppError) :
    (∃ e, s.enqueue key job prebound refusal = (some e, s)) ∨
    ∃ row, s.registry.jobs.get? job = some row ∧ row.status.isTerminal = false ∧
      ((s.full = true ∧
          s.enqueue key job prebound refusal = (none, { s with queue := s.queue ++ [job] })) ∨
        (s.full = false ∧ s.enqueue key job prebound refusal =
          s.launchJob key job .initial prebound refusal)) := by
  unfold enqueue Registry.loadJob
  rcases s.registry.jobs.get? job with _ | row <;> simp only
  · exact .inl ⟨_, rfl⟩
  by_cases hterm : row.status.isTerminal = true
  · rw [if_pos hterm]
    exact .inl ⟨_, rfl⟩
  rw [if_neg hterm]
  refine .inr ⟨row, rfl, by simpa using hterm, ?_⟩
  by_cases hfull : s.full = true
  · exact .inl ⟨hfull, if_pos hfull⟩
  · exact .inr ⟨by simpa using hfull, if_neg hfull⟩

/-- A refusal changes nothing.  Otherwise the desired state moves, and a run that
took the command has its status marked too. -/
theorem control_cases (s : Actor) (job expected : ℕ) (desired : DesiredState)
    (status : DurableJobStatus) (refusal : Option AppError) :
    (∃ e, s.control job expected desired status refusal = (some e, s)) ∨
    ∃ r₁, s.registry.compareAndSetDesired job expected desired = .ok r₁ ∧
      ((∃ e, s.control job expected desired status refusal = (some e, { s with registry := r₁ })) ∨
        (s.active.contains job = false ∧
          s.control job expected desired status refusal = (none, { s with registry := r₁ })) ∨
        (s.active.contains job = true ∧ ∃ r₂, r₁.markStatus job status = .ok r₂ ∧
          s.control job expected desired status refusal = (none, { s with registry := r₂ }))) := by
  unfold control
  rcases s.registry.compareAndSetDesired job expected desired with e | r₁ <;> simp only
  · exact .inl ⟨e, rfl⟩
  refine .inr ⟨r₁, rfl, ?_⟩
  by_cases hactive : s.active.contains job = true
  · rw [if_pos hactive]
    cases refusal with
    | some e => exact .inl ⟨e, rfl⟩
    | none =>
      rcases hmark : r₁.markStatus job status with e | r₂
      · exact .inl ⟨e, rfl⟩
      · exact .inr (.inr ⟨hactive, r₂, rfl, rfl⟩)
  · rw [if_neg hactive]
    exact .inr (.inl ⟨by simpa using hactive, rfl⟩)

/-- A run is only told.  A job without one leaves the queue, and is marked unless
its version stands at the cap. -/
theorem cancel_cases (s : Actor) (job expected : ℕ) (refusal : Option AppError) :
    (∃ e, s.cancel job expected refusal = (some e, s)) ∨
    ∃ r₁, s.registry.compareAndSetDesired job expected .cancelled = .ok r₁ ∧
      ((s.cancel job expected refusal).2 = { s with registry := r₁ } ∨
        (s.active.contains job = false ∧ ∃ r₂,
          (r₂ = r₁ ∨ r₁.markStatus job .cancelled = .ok r₂) ∧
          (s.cancel job expected refusal).2 =
            { s with registry := r₂, queue := s.queue.filter (· ≠ job) })) := by
  unfold cancel Registry.loadJob
  rcases s.registry.jobs.get? job with _ | row <;> simp only
  · exact .inl ⟨_, rfl⟩
  by_cases hterm : row.status.isTerminal = true
  · rw [if_pos hterm]
    exact .inl ⟨_, rfl⟩
  rw [if_neg hterm]
  rcases s.registry.compareAndSetDesired job expected .cancelled with e | r₁ <;> simp only
  · exact .inl ⟨e, rfl⟩
  refine .inr ⟨r₁, rfl, ?_⟩
  by_cases hactive : s.active.contains job = true
  · rw [if_pos hactive]
    exact .inl rfl
  · rw [if_neg hactive]
    refine .inr ⟨by simpa using hactive, ?_⟩
    rcases hmark : r₁.markStatus job .cancelled with e | r₂
    · exact ⟨r₁, .inl rfl, rfl⟩
    · exact ⟨r₂, .inr rfl, rfl⟩

/-- A terminal job is wanted to run again.  It is queued while no slot is open,
and otherwise launched under a new attempt. -/
theorem retry_cases (s : Actor) (job expected : ℕ) (refusal : Option AppError) :
    (∃ e, s.retry key job expected refusal = (some e, s)) ∨
    ∃ row r₁, s.registry.jobs.get? job = some row ∧ row.status.isTerminal = true ∧
      s.registry.compareAndSetDesired job expected .running = .ok r₁ ∧
      ((∃ e, s.retry key job expected refusal = (some e, { s with registry := r₁ })) ∨
        (s.full = true ∧ ∃ r₂, r₁.markStatus job .queued = .ok r₂ ∧
          s.retry key job expected refusal =
            (none, { s with registry := r₂, queue := s.queue ++ [job] })) ∨
        (s.full = false ∧ s.retry key job expected refusal =
          { s with registry := r₁ }.launchJob key job .retry none refusal)) := by
  unfold retry Registry.loadJob
  rcases s.registry.jobs.get? job with _ | row <;> simp only
  · exact .inl ⟨_, rfl⟩
  by_cases hterm : row.status.isTerminal = true
  swap
  · rw [if_pos (by simpa using hterm)]
    exact .inl ⟨_, rfl⟩
  rw [if_neg (by simpa using hterm)]
  rcases s.registry.compareAndSetDesired job expected .running with e | r₁ <;> simp only
  · exact .inl ⟨e, rfl⟩
  refine .inr ⟨row, r₁, rfl, hterm, rfl, ?_⟩
  by_cases hfull : s.full = true
  · rw [if_pos (by exact hfull)]
    rcases hmark : r₁.markStatus job .queued with e | r₂
    · exact .inl ⟨e, rfl⟩
    · exact .inr (.inl ⟨hfull, r₂, rfl, rfl⟩)
  · exact .inr (.inr ⟨by simpa using hfull, if_neg hfull⟩)

/-- The planner gives up, moves on, or has begun an attempt that only it will
enqueue. -/
theorem recoverBegin_cases (s : Actor) (job : ℕ) :
    s.recoverBegin key job = { s with recovery := [], stage := .classify } ∨
    s.recoverBegin key job = s.recoverNext ∨
    (s.registry.attemptByLaunchKey job key = none ∧ ∃ row attempt r',
      s.registry.jobs.get? job = some row ∧
      r'.jobs.get? job = some { row with currentAttemptId := some attempt } ∧
      s.registry.Touches r' job ∧ (s.registry.WellFormed → r'.WellFormed) ∧
      r'.Open attempt job ∧
      s.recoverBegin key job = { s with registry := r', stage := .enqueue attempt }) := by
  unfold recoverBegin
  rcases hbegin : s.registry.beginRecoveryAttemptOnce job key with e | ⟨⟨attempt, created⟩, r'⟩
  · exact .inl rfl
  have hwf := fun h : s.registry.WellFormed => h.beginRecovery hbegin
  rcases Registry.beginRecoveryAttemptOnce_eq_ok hbegin with
    ⟨rfl, rfl⟩ | ⟨rfl, hkey, row, r₁, hrow, hr₁, rfl, rfl⟩
  · exact .inr (.inl rfl)
  refine .inr (.inr ⟨hkey, row, _, _, hrow, SortedMap.get?_insert_self .., ?_, hwf,
    Registry.insertAttempt_open .., rfl⟩)
  -- first the attempts of the job are interrupted, then the new one is appended
  have hrow₁ : r₁.jobs.get? job = some row := by rw [hr₁]; exact hrow
  have htouch := Registry.touches_interrupt s.registry job
  rw [← hr₁] at htouch
  exact htouch.trans (Registry.touches_insertAttempt hrow₁ _ _)

/-! ### The promotion loop -/

/-- A property of the state and the rest of the queue that every iteration
keeps holds at the end with an empty rest. -/
theorem promoteLoop_invariant {I : Actor → List ℕ → Prop} (refusals : ℕ → Option AppError)
    (hstep : ∀ s job rest refusal, I s (job :: rest) → I (s.promoteOne key job refusal) rest)
    (n : ℕ) (queue : List ℕ) (s : Actor) (h : I s queue) :
    I (promoteLoop key refusals n queue s) [] := by
  induction queue generalizing n s with
  | nil => exact h
  | cons job rest ih => exact ih (n + 1) _ (hstep s job rest (refusals n) h)

/-- One job of the queue: it stays, it is dropped, or it is launched. -/
theorem promoteOne_cases (s : Actor) (job : ℕ) (refusal : Option AppError) :
    (s.promoteOne key job refusal = { s with queue := s.queue ++ [job] } ∧
      (s.full = true ∨ ∃ row, s.registry.jobs.get? job = some row ∧
        row.desiredState = .paused)) ∨
    (s.promoteOne key job refusal = s ∧
      ∀ row, s.registry.jobs.get? job = some row → row.status.isTerminal = true ∨
        row.desiredState = .cancelled ∧ maxControlVersion ≤ row.controlVersion) ∨
    (s.full = false ∧ ∃ registry,
      s.promoteOne key job refusal = { s with registry := registry } ∧
      s.registry.markStatus job .cancelled = .ok registry ∧
      ∃ row, s.registry.jobs.get? job = some row ∧ row.desiredState = .cancelled) ∨
    (s.full = false ∧ ∃ row, s.registry.jobs.get? job = some row ∧
      row.status.isTerminal = false ∧ row.desiredState = .running ∧
      s.promoteOne key job refusal =
        (s.launchJob key job .initial row.currentAttemptId refusal).2) := by
  unfold promoteOne Registry.loadJob
  by_cases hfull : s.full = true
  · rw [if_pos hfull]
    exact .inl ⟨rfl, .inl hfull⟩
  rw [if_neg hfull]
  rcases hrow : s.registry.jobs.get? job with _ | row
  · exact .inr (.inl ⟨rfl, nofun⟩)
  by_cases hterm : row.status.isTerminal = true
  · dsimp only
    rw [if_pos hterm]
    exact .inr (.inl ⟨rfl, fun row' h => .inl (by cases h; exact hterm)⟩)
  dsimp only
  rw [if_neg hterm]
  rcases hdes : row.desiredState with _ | _ | _
  · exact .inr (.inr (.inr ⟨by simpa using hfull, row, rfl, by simpa using hterm, hdes, rfl⟩))
  · exact .inl ⟨rfl, .inr ⟨row, rfl, hdes⟩⟩
  · rcases hmark : s.registry.markStatus job .cancelled with e | registry
    · refine .inr (.inl ⟨rfl, fun row' h => .inr ?_⟩)
      cases h
      exact ⟨hdes, Registry.markStatus_eq_error hmark row hrow⟩
    · exact .inr (.inr (.inl ⟨by simpa using hfull, registry, rfl, rfl, row, rfl, hdes⟩))

end Actor

end KDown
