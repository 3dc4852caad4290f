/-
KDown/Registry.lean

The durable registry of jobs and attempts (app registry.rs, domain.rs).

A job carries what the user wants of it, its status, a control version that
every accepted change advances, and its current attempt.  An attempt belongs to
one job and is finished once, by the outcome recorded on it.  Attempts are
identified by their position in the order of creation.

Database faults are left out; what the operations refuse by themselves (unknown
ids, stale versions, finished attempts, a control version at its cap) is kept.
`Registry.Touches` says once what every operation on a job leaves alone.
-/
import KDown.SortedMap

namespace KDown

/-! ### Records -/

/-- What the user wants of a job. -/
inductive DesiredState
  | running
  | paused
  | cancelled
  deriving DecidableEq, Repr

/-- The durable status of a job. -/
inductive DurableJobStatus
  | queued
  | recovering
  | active
  | paused
  | completed
  | failed
  | cancelled
  deriving DecidableEq, Repr

/-- The statuses that end a job. -/
def DurableJobStatus.isTerminal : DurableJobStatus → Bool
  | .completed | .failed | .cancelled => true
  | _ => false

/-- Why an attempt was made. -/
inductive AttemptReason
  | initial
  | retry
  | recovery
  deriving DecidableEq, Repr

/-- How an attempt ended. -/
inductive AttemptOutcome
  | completed
  | failed (code : String) (detail : Option String)
  | cancelled
  | interrupted
  deriving DecidableEq, Repr

/-- The status an outcome gives the job; an interruption leaves it to
recovery. -/
def AttemptOutcome.status : AttemptOutcome → Option DurableJobStatus
  | .completed => some .completed
  | .failed _ _ => some .failed
  | .cancelled => some .cancelled
  | .interrupted => none

theorem AttemptOutcome.isTerminal_of_status {o : AttemptOutcome} {status : DurableJobStatus}
    (h : o.status = some status) : status.isTerminal = true := by
  cases o <;> cases h <;> rfl

/-- The row of a job, as far as control is concerned. -/
structure JobRecord where
  desiredState : DesiredState
  status : DurableJobStatus
  controlVersion : ℕ
  currentAttemptId : Option ℕ
  deriving DecidableEq, Repr

/-- The row of an attempt. -/
structure AttemptRecord where
  jobId : ℕ
  launchKey : ℕ
  reason : AttemptReason
  /-- Set when the attempt is finished. -/
  outcome : Option AttemptOutcome
  deriving DecidableEq, Repr

/-- The errors of the application. -/
inductive AppError
  | notFound
  | conflict (current : JobRecord)
  | versionExhausted
  | invalidTransition
  /-- A refusal outside the registry, by its code. -/
  | other (code : String)
  deriving DecidableEq, Repr

/-- The code of an error in an answer. -/
def AppError.code : AppError → String
  | .notFound => "not_found"
  | .conflict _ => "conflict"
  | .versionExhausted => "version_exhausted"
  | .invalidTransition => "invalid_transition"
  | .other code => code

/-- The largest integer a JSON number holds exactly. -/
def maxControlVersion : ℕ := 9007199254740991

/-- The two tables. -/
structure Registry where
  jobs : SortedMap ℕ JobRecord
  attempts : List AttemptRecord

namespace Registry

/-! ### Operations -/

/-- The row of a job. -/
def loadJob (r : Registry) (id : ℕ) : Except AppError JobRecord :=
  match r.jobs.get? id with
  | some job => .ok job
  | none => .error .notFound

/-- The row is written. -/
def putJob (r : Registry) (id : ℕ) (job : JobRecord) : Registry :=
  { r with jobs := r.jobs.insert id job }

/-- A new job is queued and wants to run. -/
def insertJob (r : Registry) (id : ℕ) : Registry := r.putJob id ⟨.running, .queued, 1, none⟩

/-- Move the desired state if the caller saw the current version. -/
def compareAndSetDesired (r : Registry) (id expected : ℕ) (desired : DesiredState) :
    Except AppError Registry :=
  if maxControlVersion ≤ expected then .error .versionExhausted
  else
    match r.jobs.get? id with
    | none => .error .notFound
    | some job =>
        if job.controlVersion = expected then
          .ok (r.putJob id { job with desiredState := desired, controlVersion := expected + 1 })
        else .error (.conflict job)

/-- The record after a status milestone. -/
def withStatus (job : JobRecord) (status : DurableJobStatus) : JobRecord :=
  { job with status := status, controlVersion := job.controlVersion + 1 }

/-- `mark_status`: the status and the next version, if there is one. -/
def markStatus (r : Registry) (id : ℕ) (status : DurableJobStatus) : Except AppError Registry :=
  match r.jobs.get? id with
  | none => .error .notFound
  | some job =>
      if job.controlVersion < maxControlVersion then .ok (r.putJob id (withStatus job status))
      else .error .versionExhausted

/-- The milestone an attempt's outcome sets; a version at its cap is skipped in
silence. -/
def bumpJobStatus (r : Registry) (id : ℕ) (status : DurableJobStatus) : Registry :=
  match r.jobs.get? id with
  | none => r
  | some job =>
      if job.controlVersion < maxControlVersion then r.putJob id (withStatus job status) else r

/-- The row of an attempt. -/
def loadAttempt (r : Registry) (id : ℕ) : Except AppError AttemptRecord :=
  match r.attempts[id]? with
  | some attempt => .ok attempt
  | none => .error .notFound

/-- The attempt a launch key stands for. -/
def attemptByLaunchKey (r : Registry) (job key : ℕ) : Option ℕ :=
  r.attempts.findIdx? fun attempt => attempt.jobId = job && attempt.launchKey = key

/-- Append an attempt and make it the job's current one. -/
def insertAttempt (r : Registry) (id : ℕ) (job : JobRecord) (reason : AttemptReason)
    (key : ℕ) : Registry :=
  { jobs := r.jobs.insert id { job with currentAttemptId := some r.attempts.length }
    attempts := r.attempts ++ [⟨id, key, reason, none⟩] }

/-- Begin the attempt carrying the key, or return the one that does. -/
def beginAttemptOnce (r : Registry) (id : ℕ) (reason : AttemptReason) (key : ℕ) :
    Except AppError (ℕ × Registry) :=
  match r.attemptByLaunchKey id key with
  | some existing => .ok (existing, r)
  | none =>
      match r.jobs.get? id with
      | none => .error .notFound
      | some job => .ok (r.attempts.length, r.insertAttempt id job reason key)

/-- Record the result of an attempt. -/
def finishAttempt (r : Registry) (id : ℕ) (outcome : AttemptOutcome) : Except AppError Registry :=
  match r.attempts[id]? with
  | none => .error .notFound
  | some attempt =>
      if attempt.outcome.isSome then .error .invalidTransition
      else
        let r := { r with attempts := r.attempts.set id { attempt with outcome := some outcome } }
        -- the owner takes the status, whichever attempt it runs by now
        match outcome.status with
        | some status => .ok (r.bumpJobStatus attempt.jobId status)
        | none => .ok r

/-- `finishAttempt` where the caller ignores a refusal. -/
def recordOutcome (r : Registry) (id : ℕ) (outcome : AttemptOutcome) : Registry :=
  match r.finishAttempt id outcome with
  | .ok r' => r'
  | .error _ => r

/-- Mark what is unfinished as interrupted. -/
def interrupt (attempt : AttemptRecord) : AttemptRecord :=
  if attempt.outcome.isNone then { attempt with outcome := some .interrupted } else attempt

/-- Begin this startup's recovery attempt unless it exists; unfinished attempts
of the job are interrupted first.  The flag tells whether it was created. -/
def beginRecoveryAttemptOnce (r : Registry) (id startupKey : ℕ) :
    Except AppError ((ℕ × Bool) × Registry) :=
  match r.jobs.get? id with
  | none => .error .notFound
  | some job =>
      match r.attemptByLaunchKey id startupKey with
      | some existing => .ok ((existing, false), r)
      | none =>
          let r := { r with
            attempts := r.attempts.map fun (a : AttemptRecord) =>
              if a.jobId = id then interrupt a else a }
          .ok ((r.attempts.length, true), r.insertAttempt id job .recovery startupKey)

/-- The jobs a startup looks at. -/
def listRecoverable (r : Registry) : List (ℕ × JobRecord) :=
  r.jobs.entries.filter fun e => !e.2.status.isTerminal

/-- A launch key no attempt carries. -/
def freshLaunchKey (r : Registry) (startupKey : ℕ) : ℕ :=
  (r.attempts.map (·.launchKey)).foldr max startupKey + 1

/-! ### What an operation leaves alone -/

/-- The attempt exists, belongs to the job, and is unfinished. -/
def Open (r : Registry) (id job : ℕ) : Prop :=
  ∃ attempt, r.attempts[id]? = some attempt ∧ attempt.jobId = job ∧ attempt.outcome = none

/-- Between `r` and `r'` only the job and its attempts changed: attempts keep
their owner and their outcome, and the job's version did not go back. -/
structure Touches (r r' : Registry) (job : ℕ) : Prop where
  others : ∀ k ≠ job, r'.jobs.get? k = r.jobs.get? k
  versions : ∀ row, r.jobs.get? job = some row →
    ∃ row', r'.jobs.get? job = some row' ∧ row.controlVersion ≤ row'.controlVersion
  attempts : ∀ (a : ℕ) (row : AttemptRecord), r.attempts[a]? = some row →
    ∃ row', r'.attempts[a]? = some row' ∧ row'.jobId = row.jobId ∧
      (row.jobId ≠ job → row' = row) ∧ (row.outcome.isSome = true → row' = row)

variable {r r' r'' : Registry} {j : ℕ}

theorem Touches.refl (r : Registry) (j : ℕ) : r.Touches r j where
  others _ _ := rfl
  versions row h := ⟨row, h, le_rfl⟩
  attempts _ row h := ⟨row, h, rfl, fun _ => rfl, fun _ => rfl⟩

theorem Touches.trans (h : r.Touches r' j) (h' : r'.Touches r'' j) : r.Touches r'' j where
  others k hk := (h'.others k hk).trans (h.others k hk)
  versions row hrow := by
    obtain ⟨row₁, h₁, hle⟩ := h.versions row hrow
    obtain ⟨row₂, h₂, hle'⟩ := h'.versions row₁ h₁
    exact ⟨row₂, h₂, hle.trans hle'⟩
  attempts a row hrow := by
    obtain ⟨row₁, h₁, hjob, hother, hdone⟩ := h.attempts a row hrow
    obtain ⟨row₂, h₂, hjob', hother', hdone'⟩ := h'.attempts a row₁ h₁
    -- the owner and a recorded outcome survive the first change, so the second spares them
    refine ⟨row₂, h₂, hjob'.trans hjob, fun hne => ?_, fun hfin => ?_⟩
    · rw [hother' (by rwa [hjob]), hother hne]
    · rw [hdone' (by rwa [hdone hfin]), hdone hfin]

/-- Writing a job's record with a version that does not go back. -/
theorem touches_putJob {row : JobRecord}
    (h : ∀ old, r.jobs.get? j = some old → old.controlVersion ≤ row.controlVersion) :
    r.Touches (r.putJob j row) j where
  others _ hk := r.jobs.get?_insert_of_ne row hk
  versions old hold := ⟨row, r.jobs.get?_insert_self j row, h old hold⟩
  attempts _ row h := ⟨row, h, rfl, fun _ => rfl, fun _ => rfl⟩

theorem touches_withStatus {job : JobRecord} (h : r.jobs.get? j = some job)
    (status : DurableJobStatus) : r.Touches (r.putJob j (withStatus job status)) j :=
  touches_putJob fun old hold => by
    rw [h] at hold
    cases hold
    exact Nat.le_succ _

theorem markStatus_eq_ok {status : DurableJobStatus} (h : r.markStatus j status = .ok r') :
    ∃ job, r.jobs.get? j = some job ∧ job.controlVersion < maxControlVersion ∧
      r' = r.putJob j (withStatus job status) := by
  unfold markStatus at h
  rcases hj : r.jobs.get? j with _ | job <;> rw [hj] at h
  · cases h
  · simp only at h
    split_ifs at h with hv
    cases h
    exact ⟨job, rfl, hv, rfl⟩

/-- The record a milestone leaves. -/
theorem markStatus_row {status : DurableJobStatus} (h : r.markStatus j status = .ok r') :
    ∃ old, r.jobs.get? j = some old ∧ r'.jobs.get? j = some (withStatus old status) := by
  obtain ⟨old, hold, -, rfl⟩ := markStatus_eq_ok h
  exact ⟨old, hold, SortedMap.get?_insert_self ..⟩

theorem markStatus_eq_error {status : DurableJobStatus} {e : AppError}
    (h : r.markStatus j status = .error e) :
    ∀ job, r.jobs.get? j = some job → maxControlVersion ≤ job.controlVersion := by
  intro job hj
  unfold markStatus at h
  rw [hj] at h
  by_contra hv
  simp only [if_pos (not_le.mp hv)] at h
  cases h

theorem touches_markStatus {status : DurableJobStatus} (h : r.markStatus j status = .ok r') :
    r.Touches r' j := by
  obtain ⟨job, hj, -, rfl⟩ := markStatus_eq_ok h
  exact touches_withStatus hj status

theorem compareAndSetDesired_eq_ok {expected : ℕ} {desired : DesiredState}
    (h : r.compareAndSetDesired j expected desired = .ok r') :
    ∃ job, r.jobs.get? j = some job ∧ job.controlVersion = expected ∧
      r' = r.putJob j { job with desiredState := desired, controlVersion := expected + 1 } := by
  unfold compareAndSetDesired at h
  split_ifs at h
  rcases hj : r.jobs.get? j with _ | job <;> rw [hj] at h
  · cases h
  · simp only at h
    split_ifs at h with hv
    cases h
    exact ⟨job, rfl, hv, rfl⟩

/-- The record a change of the desired state leaves. -/
theorem compareAndSetDesired_row {expected : ℕ} {desired : DesiredState}
    (h : r.compareAndSetDesired j expected desired = .ok r') :
    ∃ old, r.jobs.get? j = some old ∧ r'.jobs.get? j =
      some { old with desiredState := desired, controlVersion := expected + 1 } := by
  obtain ⟨old, hold, -, rfl⟩ := compareAndSetDesired_eq_ok h
  exact ⟨old, hold, SortedMap.get?_insert_self ..⟩

theorem touches_compareAndSetDesired {expected : ℕ} {desired : DesiredState}
    (h : r.compareAndSetDesired j expected desired = .ok r') : r.Touches r' j := by
  obtain ⟨job, hj, hv, rfl⟩ := compareAndSetDesired_eq_ok h
  refine touches_putJob fun old hold => ?_
  rw [hj] at hold
  cases hold
  exact hv ▸ Nat.le_succ _

theorem touches_bumpJobStatus (r : Registry) (j : ℕ) (status : DurableJobStatus) :
    r.Touches (r.bumpJobStatus j status) j := by
  unfold bumpJobStatus
  rcases hj : r.jobs.get? j with _ | job <;> simp only
  · exact .refl r j
  · split_ifs
    · exact touches_withStatus hj status
    · exact .refl r j

/-- Replacing an unfinished attempt of the job by a record of the same owner. -/
theorem touches_setAttempt {a : ℕ} {attempt attempt' : AttemptRecord}
    (h : r.attempts[a]? = some attempt) (hjob : attempt.jobId = j)
    (hopen : attempt.outcome = none) (hjob' : attempt'.jobId = attempt.jobId) :
    r.Touches { r with attempts := r.attempts.set a attempt' } j where
  others _ _ := rfl
  versions row hrow := ⟨row, hrow, le_rfl⟩
  attempts b row hrow := by
    rcases eq_or_ne b a with rfl | hne
    · rw [h] at hrow
      cases hrow
      refine ⟨attempt', ?_, hjob', fun hne => absurd hjob hne, fun hfin => ?_⟩
      · have hlt := (List.getElem?_eq_some_iff.mp h).1
        simp [hlt]
      · rw [hopen] at hfin
        cases hfin
    · exact ⟨row, by simpa [List.getElem?_set, hne.symm] using hrow, rfl, fun _ => rfl,
        fun _ => rfl⟩

/-! ### Attempts -/

/-- What recording an outcome does to an open attempt. -/
theorem recordOutcome_open {a : ℕ} (outcome : AttemptOutcome) (h : r.Open a j) :
    ∃ attempt r₁, r.attempts[a]? = some attempt ∧ attempt.jobId = j ∧
      r₁ = { r with attempts := r.attempts.set a { attempt with outcome := some outcome } } ∧
      r.recordOutcome a outcome =
        (outcome.status.map fun status => r₁.bumpJobStatus j status).getD r₁ := by
  obtain ⟨attempt, hat, rfl, hopen⟩ := h
  refine ⟨attempt, _, hat, rfl, rfl, ?_⟩
  unfold recordOutcome finishAttempt
  rw [hat]
  simp only [hopen, Option.isSome_none, Bool.false_eq_true, if_false]
  rcases outcome.status with _ | status <;> rfl

theorem recordOutcome_finished {a : ℕ} {attempt : AttemptRecord} (outcome : AttemptOutcome)
    (hat : r.attempts[a]? = some attempt) (hfin : attempt.outcome.isSome = true) :
    r.recordOutcome a outcome = r := by
  unfold recordOutcome finishAttempt
  simp [hat, hfin]

/-- Recording an outcome touches the owner of the attempt only. -/
theorem touches_recordOutcome {a : ℕ} {attempt : AttemptRecord} (outcome : AttemptOutcome)
    (hat : r.attempts[a]? = some attempt) (hjob : attempt.jobId = j) :
    r.Touches (r.recordOutcome a outcome) j := by
  rcases hout : attempt.outcome with _ | o
  · obtain ⟨attempt', r₁, hat', hjob', rfl, hrec⟩ :=
      recordOutcome_open outcome ⟨attempt, hat, hjob, hout⟩
    rw [hat] at hat'
    cases hat'
    have h₁ : r.Touches
        { r with attempts := r.attempts.set a { attempt with outcome := some outcome } } j :=
      touches_setAttempt hat hjob hout rfl
    rw [hrec]
    rcases outcome.status with _ | status
    · exact h₁
    · exact h₁.trans (touches_bumpJobStatus _ j status)
  · rw [recordOutcome_finished outcome hat (by rw [hout]; rfl)]
    exact .refl r j

theorem bumpJobStatus_attempts (r : Registry) (j : ℕ) (status : DurableJobStatus) :
    (r.bumpJobStatus j status).attempts = r.attempts := by
  unfold bumpJobStatus
  rcases r.jobs.get? j with _ | job <;> simp only
  split_ifs <;> rfl

theorem recordOutcome_attempts {a : ℕ} (outcome : AttemptOutcome) (h : r.Open a j) :
    ∃ attempt, attempt.jobId = j ∧ attempt.outcome = some outcome ∧
      (r.recordOutcome a outcome).attempts[a]? = some attempt := by
  obtain ⟨attempt, r₁, hat, hjob, rfl, hrec⟩ := recordOutcome_open outcome h
  refine ⟨{ attempt with outcome := some outcome }, hjob, rfl, ?_⟩
  have hlt := (List.getElem?_eq_some_iff.mp hat).1
  rw [hrec]
  rcases outcome.status with _ | status <;>
    simp [bumpJobStatus_attempts, hlt]

/-- No other attempt changes. -/
theorem recordOutcome_attempts_of_ne {a b : ℕ} (outcome : AttemptOutcome) (hne : b ≠ a) :
    (r.recordOutcome a outcome).attempts[b]? = r.attempts[b]? := by
  unfold recordOutcome finishAttempt
  rcases r.attempts[a]? with _ | attempt <;> simp only
  by_cases hfin : attempt.outcome.isSome = true
  · rw [if_pos hfin]
  · rw [if_neg hfin]
    rcases outcome.status with _ | status <;>
      simp [bumpJobStatus_attempts, hne.symm]

/-- After an outcome is recorded on an open attempt, its job has the matching
status, unless its version stood at the cap. -/
theorem recordOutcome_status {a : ℕ} {outcome : AttemptOutcome} {status : DurableJobStatus}
    (h : r.Open a j) (hstatus : outcome.status = some status) {row : JobRecord}
    (hrow : (r.recordOutcome a outcome).jobs.get? j = some row)
    (hv : row.controlVersion < maxControlVersion) : row.status = status := by
  obtain ⟨attempt, r₁, -, -, rfl, hrec⟩ := recordOutcome_open outcome h
  rw [hrec, hstatus] at hrow
  simp only [Option.map_some, Option.getD_some, bumpJobStatus] at hrow
  rcases hj : r.jobs.get? j with _ | job <;> simp only [hj] at hrow
  · cases hrow
  · split_ifs at hrow with hlt
    · simp only [putJob, SortedMap.get?_insert_self, Option.some.injEq] at hrow
      exact hrow ▸ rfl
    · -- at the cap the milestone is skipped, and the row still shows the cap
      rw [hj] at hrow
      cases hrow
      exact absurd hv hlt

/-- A status milestone leaves the rest of the record. -/
theorem bumpJobStatus_row {k : ℕ} {status : DurableJobStatus} {row : JobRecord}
    (h : (r.bumpJobStatus j status).jobs.get? k = some row) :
    ∃ old, r.jobs.get? k = some old ∧ row.desiredState = old.desiredState ∧
      row.currentAttemptId = old.currentAttemptId := by
  unfold bumpJobStatus at h
  rcases hj : r.jobs.get? j with _ | job <;> simp only [hj] at h
  · exact ⟨row, h, rfl, rfl⟩
  split_ifs at h
  · rcases eq_or_ne k j with rfl | hne
    · simp only [putJob, SortedMap.get?_insert_self, Option.some.injEq] at h
      exact ⟨job, hj, h ▸ rfl, h ▸ rfl⟩
    · rw [putJob, SortedMap.get?_insert_of_ne _ _ hne] at h
      exact ⟨row, h, rfl, rfl⟩
  · exact ⟨row, h, rfl, rfl⟩

/-- A recorded outcome changes neither what is wanted of a job nor its current
attempt. -/
theorem recordOutcome_row {a k : ℕ} {outcome : AttemptOutcome} {row : JobRecord}
    (h : (r.recordOutcome a outcome).jobs.get? k = some row) :
    ∃ old, r.jobs.get? k = some old ∧ row.desiredState = old.desiredState ∧
      row.currentAttemptId = old.currentAttemptId := by
  unfold recordOutcome finishAttempt at h
  rcases hat : r.attempts[a]? with _ | attempt <;> simp only [hat] at h
  · exact ⟨row, h, rfl, rfl⟩
  by_cases hfin : attempt.outcome.isSome = true
  · rw [if_pos hfin] at h
    exact ⟨row, h, rfl, rfl⟩
  · rw [if_neg hfin] at h
    rcases hs : outcome.status with _ | status <;> rw [hs] at h
    · exact ⟨row, h, rfl, rfl⟩
    · obtain ⟨old, hold, hrow⟩ := bumpJobStatus_row h
      exact ⟨old, hold, hrow⟩

theorem launchKey_lt_fresh (startupKey : ℕ) {attempt : AttemptRecord}
    (h : attempt ∈ r.attempts) : attempt.launchKey < r.freshLaunchKey startupKey := by
  unfold freshLaunchKey
  revert h
  induction r.attempts with
  | nil => exact fun h => nomatch h
  | cons x l ih =>
    intro h
    simp only [List.map_cons, List.foldr_cons]
    rcases List.mem_cons.mp h with rfl | hl
    · omega
    · have := ih hl
      omega

theorem attemptByLaunchKey_fresh (r : Registry) (j startupKey : ℕ) :
    r.attemptByLaunchKey j (r.freshLaunchKey startupKey) = none := by
  refine List.findIdx?_eq_none_iff.mpr fun attempt hmem => ?_
  -- the fresh key exceeds every key in use
  have hlt := launchKey_lt_fresh startupKey hmem
  simp only [Bool.and_eq_false_iff, decide_eq_false_iff_not]
  exact .inr hlt.ne

/-- A fresh key always begins a new attempt. -/
theorem beginAttemptOnce_fresh {job : JobRecord} (hj : r.jobs.get? j = some job)
    (reason : AttemptReason) (startupKey : ℕ) :
    r.beginAttemptOnce j reason (r.freshLaunchKey startupKey) =
      .ok (r.attempts.length, r.insertAttempt j job reason (r.freshLaunchKey startupKey)) := by
  unfold beginAttemptOnce
  rw [attemptByLaunchKey_fresh, hj]

theorem touches_insertAttempt {job : JobRecord} (hj : r.jobs.get? j = some job)
    (reason : AttemptReason) (key : ℕ) : r.Touches (r.insertAttempt j job reason key) j where
  others _ hk := r.jobs.get?_insert_of_ne _ hk
  versions row hrow := by
    rw [hj] at hrow
    cases hrow
    exact ⟨_, r.jobs.get?_insert_self j _, le_rfl⟩
  attempts a row hrow := by
    refine ⟨row, ?_, rfl, fun _ => rfl, fun _ => rfl⟩
    have hlt := (List.getElem?_eq_some_iff.mp hrow).1
    simpa [insertAttempt, List.getElem?_append_left hlt] using hrow

/-- The new attempt is open and current. -/
theorem insertAttempt_open (r : Registry) (j : ℕ) (job : JobRecord) (reason : AttemptReason)
    (key : ℕ) : (r.insertAttempt j job reason key).Open r.attempts.length j :=
  ⟨⟨j, key, reason, none⟩, by simp [insertAttempt], rfl, rfl⟩

theorem interrupt_jobId (attempt : AttemptRecord) :
    (interrupt attempt).jobId = attempt.jobId := by
  unfold interrupt
  split <;> rfl

/-- Interrupting the attempts of a job touches that job only. -/
theorem touches_interrupt (r : Registry) (j : ℕ) :
    r.Touches { r with attempts := r.attempts.map fun (x : AttemptRecord) =>
      if x.jobId = j then interrupt x else x } j where
  others _ _ := rfl
  versions row hrow := ⟨row, hrow, le_rfl⟩
  attempts a row hrow := by
    refine ⟨if row.jobId = j then interrupt row else row, by simp [hrow], ?_, fun hne => ?_,
      fun hfin => ?_⟩
    · split_ifs
      · exact interrupt_jobId row
      · rfl
    · rw [if_neg hne]
    · -- only unfinished attempts are interrupted
      have hstay : interrupt row = row := by
        unfold interrupt
        rw [if_neg (by simpa [Option.isSome_iff_ne_none] using hfin)]
      split_ifs
      · exact hstay
      · rfl

/-- What beginning a recovery attempt does. -/
theorem beginRecoveryAttemptOnce_eq_ok {startupKey a : ℕ} {created : Bool}
    (h : r.beginRecoveryAttemptOnce j startupKey = .ok ((a, created), r')) :
    (created = false ∧ r' = r) ∨
    (created = true ∧ r.attemptByLaunchKey j startupKey = none ∧
      ∃ job r₁, r.jobs.get? j = some job ∧
      r₁ = { r with attempts := r.attempts.map fun (x : AttemptRecord) =>
        if x.jobId = j then interrupt x else x } ∧
      a = r₁.attempts.length ∧ r' = r₁.insertAttempt j job .recovery startupKey) := by
  unfold beginRecoveryAttemptOnce at h
  rcases hj : r.jobs.get? j with _ | job <;> rw [hj] at h
  · cases h
  · simp only at h
    rcases hkey : r.attemptByLaunchKey j startupKey with _ | existing <;> rw [hkey] at h <;>
      simp only [Except.ok.injEq, Prod.mk.injEq] at h
    · obtain ⟨⟨rfl, rfl⟩, rfl⟩ := h
      exact .inr ⟨rfl, rfl, job, _, rfl, rfl, rfl, rfl⟩
    · obtain ⟨⟨-, rfl⟩, rfl⟩ := h
      exact .inl ⟨rfl, rfl⟩

theorem Touches.open_of_ne {a k : ℕ} (h : r.Touches r' j) (ha : r.Open a k) (hne : k ≠ j) :
    r'.Open a k := by
  obtain ⟨attempt, hat, rfl, hopen⟩ := ha
  obtain ⟨row, hrow, -, hother, -⟩ := h.attempts a attempt hat
  rw [hother hne] at hrow
  exact ⟨attempt, hrow, rfl, hopen⟩

/-- The owner of an attempt never changes. -/
def Owned (r : Registry) (a k : ℕ) : Prop := (r.attempts[a]?).map (·.jobId) = some k

theorem Owned.exists {a k : ℕ} (h : r.Owned a k) :
    ∃ attempt, r.attempts[a]? = some attempt ∧ attempt.jobId = k :=
  Option.map_eq_some_iff.mp h

theorem Touches.owned {a k : ℕ} (h : r.Touches r' j) (ha : r.Owned a k) : r'.Owned a k := by
  obtain ⟨attempt, hat, rfl⟩ := ha.exists
  obtain ⟨row, hrow, hjob, -⟩ := h.attempts a attempt hat
  exact Option.map_eq_some_iff.mpr ⟨row, hrow, hjob⟩

theorem Open.owned {a k : ℕ} (h : r.Open a k) : r.Owned a k := by
  obtain ⟨attempt, hat, hjob, -⟩ := h
  exact Option.map_eq_some_iff.mpr ⟨attempt, hat, hjob⟩

end Registry

end KDown
