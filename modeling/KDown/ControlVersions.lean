/-
KDown/ControlVersions.lean

The statements behind the changes of a job's record (app registry.rs).

Moving the desired state and marking a status are one `UPDATE` and a read of
the record; finishing an attempt is one transaction and a read of the attempt.
The statements of any number of calls run in any order, so the record a caller
is shown may be newer than its own change.

A version is compared and advanced by the same statement, so it grows with
every change and two callers never change the record on the strength of the
same version.  What is missing is the report of one refusal: a transaction that
finishes an attempt skips the status of a job whose version stands at its cap,
and returns as if it had been set.  `reported` excludes that.
-/
import KDown.Registry
import KDown.Runs

namespace KDown

/-! ### Statements -/

namespace Registry

/-- The `UPDATE` that moves the desired state, and whether it found its row. -/
def updateDesired (r : Registry) (id expected : ℕ) (desired : DesiredState) : Bool × Registry :=
  match r.jobs.get? id with
  | none => (false, r)
  | some job =>
      if job.controlVersion = expected then
        (true, r.putJob id { job with desiredState := desired, controlVersion := expected + 1 })
      else (false, r)

/-- The `UPDATE` of a status milestone, and whether it found its row. -/
def updateStatus (r : Registry) (id : ℕ) (status : DurableJobStatus) : Bool × Registry :=
  match r.jobs.get? id with
  | none => (false, r)
  | some job =>
      if job.controlVersion < maxControlVersion then (true, r.putJob id (withStatus job status))
      else (false, r)

/-- Without anything in between, the two statements are the operation. -/
theorem compareAndSetDesired_eq_update (r : Registry) (id expected : ℕ) (desired : DesiredState)
    (h : expected < maxControlVersion) :
    r.compareAndSetDesired id expected desired =
      if (r.updateDesired id expected desired).1 then .ok (r.updateDesired id expected desired).2
      else .error ((r.jobs.get? id).elim .notFound .conflict) := by
  unfold compareAndSetDesired updateDesired
  rw [if_neg (not_le.mpr h)]
  rcases r.jobs.get? id with _ | job
  · rfl
  · by_cases hv : job.controlVersion = expected
    · simp only [if_pos hv, if_true]
    · simp only [if_neg hv]
      rfl

theorem markStatus_eq_update (r : Registry) (id : ℕ) (status : DurableJobStatus) :
    r.markStatus id status =
      if (r.updateStatus id status).1 then .ok (r.updateStatus id status).2
      else .error ((r.jobs.get? id).elim .notFound fun _ => .versionExhausted) := by
  unfold markStatus updateStatus
  rcases r.jobs.get? id with _ | job
  · rfl
  · by_cases hv : job.controlVersion < maxControlVersion
    · simp only [if_pos hv, if_true]
    · simp only [if_neg hv]
      rfl

/-- The status an outcome gives the owner of the attempt can be set, or there
is none to set. -/
def hasRoom (r : Registry) (attempt : ℕ) (outcome : AttemptOutcome) : Bool :=
  outcome.status.isNone ||
    ((r.attempts[attempt]?).bind fun a => r.jobs.get? a.jobId).any
      fun job => job.controlVersion < maxControlVersion

end Registry

/-! ### Calls -/

/-- A call that changes a version. -/
inductive ControlCall
  | setDesired (job expected : ℕ) (desired : DesiredState)
  | markStatus (job : ℕ) (status : DurableJobStatus)
  | finishAttempt (attempt : ℕ) (outcome : AttemptOutcome)
  deriving DecidableEq, Repr

/-- What a call returns. -/
inductive ControlReply
  | record (job : JobRecord)
  | attempt (record : AttemptRecord)
  | refused (e : AppError)
  deriving DecidableEq, Repr

/-- The call was refused. -/
def ControlReply.isRefused : ControlReply → Bool
  | .refused _ => true
  | _ => false

/-- Where a call stands; the flag tells whether its change was made. -/
inductive CallPhase
  | update
  | read (wrote : Bool)
  | replied (wrote : Bool) (reply : ControlReply)
  deriving DecidableEq, Repr

/-- The call has changed the row. -/
def CallPhase.wrote : CallPhase → Bool
  | .update => false
  | .read wrote => wrote
  | .replied wrote _ => wrote

/-- The registry and the calls on it. -/
structure ControlState where
  registry : Registry
  /-- The calls made so far, by number. -/
  calls : ℕ → Option (ControlCall × CallPhase)

/-- A call begins, writes its row, or reads it back. -/
inductive ControlEvent
  | invoke (i : ℕ) (call : ControlCall)
  | update (i : ℕ)
  | read (i : ℕ)
  deriving DecidableEq, Repr

namespace ControlState

/-- The versions are checked against the cap before the first statement. -/
def enter : ControlCall → CallPhase
  | .setDesired _ expected _ =>
      if maxControlVersion ≤ expected then .replied false (.refused .versionExhausted) else .update
  | .markStatus _ _ => .update
  | .finishAttempt _ _ => .update

/-- The statement or transaction of a call that writes. -/
def write (r : Registry) : ControlCall → CallPhase × Registry
  | .setDesired job expected desired =>
      let (wrote, r) := r.updateDesired job expected desired
      (.read wrote, r)
  | .markStatus job status =>
      let (wrote, r) := r.updateStatus job status
      (.read wrote, r)
  | .finishAttempt attempt outcome =>
      match r.finishAttempt attempt outcome with
      | .error e => (.replied false (.refused e), r)
      | .ok r' => (.read (r.hasRoom attempt outcome), r')

/-- The read that ends a call. -/
def answer (r : Registry) (wrote : Bool) : ControlCall → ControlReply
  | .setDesired job _ _ =>
      match r.jobs.get? job with
      | none => .refused .notFound
      | some row => if wrote then .record row else .refused (.conflict row)
  | .markStatus job _ =>
      match r.jobs.get? job with
      | none => .refused .notFound
      | some row => if wrote then .record row else .refused .versionExhausted
  -- whether the status was set is not looked at
  | .finishAttempt attempt _ =>
      match r.attempts[attempt]? with
      | none => .refused .notFound
      | some record => .attempt record

/-- The call is recorded, with where it stands. -/
def put (s : ControlState) (i : ℕ) (call : ControlCall) (phase : CallPhase) : ControlState :=
  { s with calls := Function.update s.calls i (some (call, phase)) }

/-- One event. -/
def step (s : ControlState) : ControlEvent → Option ControlState
  | .invoke i call =>
      match s.calls i with
      | none => some (s.put i call (enter call))
      | some _ => none
  | .update i =>
      match s.calls i with
      | some (call, .update) =>
          some ({ s with registry := (write s.registry call).2 }.put i call
            (write s.registry call).1)
      | _ => none
  | .read i =>
      match s.calls i with
      | some (call, .read wrote) =>
          some (s.put i call (.replied wrote (answer s.registry wrote call)))
      | _ => none

/-- No attempt is finished whose status the job has no version left for. -/
def reported (s : ControlState) : ControlEvent → Bool
  | .update i =>
      match s.calls i with
      | some (.finishAttempt attempt outcome, .update) =>
          !(s.registry.finishAttempt attempt outcome).isOk || s.registry.hasRoom attempt outcome
      | _ => true
  | _ => true

/-- Any registry whose versions are within the cap, before the first call. -/
structure Starts (s : ControlState) : Prop where
  versions : ∀ job row, s.registry.jobs.get? job = some row →
    row.controlVersion ≤ maxControlVersion
  calls : ∀ i, s.calls i = none

end ControlState

/-! ### What a write does -/

/-- Between the two registries records change only with their version, within
the cap, and nothing is removed. -/
structure Registry.Grows (r r' : Registry) : Prop where
  rows : ∀ job row, r.jobs.get? job = some row →
    ∃ row', r'.jobs.get? job = some row' ∧ (row' = row ∨ row.controlVersion < row'.controlVersion)
  capped : (∀ job row, r.jobs.get? job = some row → row.controlVersion ≤ maxControlVersion) →
    ∀ job row, r'.jobs.get? job = some row → row.controlVersion ≤ maxControlVersion
  attempts : ∀ a : ℕ, (r.attempts[a]?).isSome = true → (r'.attempts[a]?).isSome = true

namespace Registry

variable {r r' r'' : Registry}

theorem Grows.refl (r : Registry) : r.Grows r where
  rows _ row h := ⟨row, h, .inl rfl⟩
  capped h := h
  attempts _ h := h

theorem Grows.trans (h : r.Grows r') (h' : r'.Grows r'') : r.Grows r'' where
  rows job row hrow := by
    obtain ⟨row₁, h₁, hle⟩ := h.rows job row hrow
    obtain ⟨row₂, h₂, hle'⟩ := h'.rows job row₁ h₁
    refine ⟨row₂, h₂, ?_⟩
    rcases hle with rfl | hlt
    · exact hle'
    · rcases hle' with rfl | hlt'
      · exact .inr hlt
      · exact .inr (hlt.trans hlt')
  capped hcap := h'.capped (h.capped hcap)
  attempts a ha := h'.attempts a (h.attempts a ha)

/-- A record is replaced by one of a higher version. -/
theorem grows_putJob {id : ℕ} {old row : JobRecord} (hold : r.jobs.get? id = some old)
    (hlt : old.controlVersion < row.controlVersion) (hcap : row.controlVersion ≤ maxControlVersion) :
    r.Grows (r.putJob id row) where
  rows job row₁ h := by
    rcases eq_or_ne job id with rfl | hne
    · rw [hold] at h
      rw [← Option.some.inj h]
      exact ⟨row, SortedMap.get?_insert_self .., .inr hlt⟩
    · refine ⟨row₁, ?_, .inl rfl⟩
      rw [putJob, SortedMap.get?_insert_of_ne _ _ hne]
      exact h
  capped hbound job row₁ h := by
    rcases eq_or_ne job id with rfl | hne
    · rw [putJob, SortedMap.get?_insert_self] at h
      rw [← Option.some.inj h]
      exact hcap
    · rw [putJob, SortedMap.get?_insert_of_ne _ _ hne] at h
      exact hbound job row₁ h
  attempts _ h := h

/-- A change of the desired state writes the version after the expected one, or
nothing. -/
theorem updateDesired_cases (r : Registry) (id expected : ℕ) (desired : DesiredState) :
    r.updateDesired id expected desired = (false, r) ∨
    ∃ job, r.jobs.get? id = some job ∧ job.controlVersion = expected ∧
      r.updateDesired id expected desired =
        (true, r.putJob id { job with desiredState := desired, controlVersion := expected + 1 }) := by
  unfold updateDesired
  rcases r.jobs.get? id with _ | job
  · exact .inl rfl
  · by_cases hv : job.controlVersion = expected
    · exact .inr ⟨job, rfl, hv, if_pos hv⟩
    · exact .inl (if_neg hv)

/-- A change of the status writes the row of the job, or nothing. -/
theorem updateStatus_cases (r : Registry) (id : ℕ) (status : DurableJobStatus) :
    r.updateStatus id status = (false, r) ∨
    ∃ job, r.jobs.get? id = some job ∧ job.controlVersion < maxControlVersion ∧
      r.updateStatus id status = (true, r.putJob id (withStatus job status)) := by
  unfold updateStatus
  rcases r.jobs.get? id with _ | job
  · exact .inl rfl
  · by_cases hv : job.controlVersion < maxControlVersion
    · exact .inr ⟨job, rfl, hv, if_pos hv⟩
    · exact .inl (if_neg hv)

/-- The milestone inside a transaction is the same statement, its count of rows
unread. -/
theorem bumpJobStatus_eq_update (r : Registry) (id : ℕ) (status : DurableJobStatus) :
    r.bumpJobStatus id status = (r.updateStatus id status).2 := by
  unfold bumpJobStatus updateStatus
  rcases r.jobs.get? id with _ | job
  · rfl
  · by_cases hv : job.controlVersion < maxControlVersion
    · simp only [if_pos hv]
    · simp only [if_neg hv]

theorem grows_updateStatus (r : Registry) (id : ℕ) (status : DurableJobStatus) :
    r.Grows (r.updateStatus id status).2 := by
  rcases updateStatus_cases r id status with h | ⟨job, hjob, hv, h⟩ <;> rw [h]
  · exact .refl r
  · exact grows_putJob hjob (Nat.lt_succ_self _) hv

theorem grows_updateDesired (r : Registry) {id expected : ℕ} (desired : DesiredState)
    (hcap : expected < maxControlVersion) : r.Grows (r.updateDesired id expected desired).2 := by
  rcases updateDesired_cases r id expected desired with h | ⟨job, hjob, hv, h⟩ <;> rw [h]
  · exact .refl r
  · exact grows_putJob hjob (hv ▸ Nat.lt_succ_self _) hcap

/-- The registry with an outcome recorded on an attempt. -/
def setOutcome (r : Registry) (a : ℕ) (attempt : AttemptRecord) (outcome : AttemptOutcome) :
    Registry :=
  { r with attempts := r.attempts.set a { attempt with outcome := some outcome } }

theorem grows_setOutcome (r : Registry) (a : ℕ) (attempt : AttemptRecord)
    (outcome : AttemptOutcome) : r.Grows (r.setOutcome a attempt outcome) where
  rows _ row h := ⟨row, h, .inl rfl⟩
  capped h := h
  attempts b hb := by
    simpa [setOutcome] using hb

/-- What finishing an attempt does. -/
theorem finishAttempt_eq_ok {a : ℕ} {outcome : AttemptOutcome}
    (h : r.finishAttempt a outcome = .ok r') :
    ∃ attempt, r.attempts[a]? = some attempt ∧
      (outcome.status = none ∧ r' = r.setOutcome a attempt outcome ∨
        ∃ status, outcome.status = some status ∧
          r' = ((r.setOutcome a attempt outcome).updateStatus attempt.jobId status).2) := by
  unfold finishAttempt at h
  rcases hat : r.attempts[a]? with _ | attempt <;> rw [hat] at h
  · cases h
  simp only at h
  split_ifs at h
  refine ⟨attempt, rfl, ?_⟩
  rcases hs : outcome.status with _ | status <;> rw [hs] at h <;>
    simp only [Except.ok.injEq] at h
  · exact .inl ⟨rfl, h.symm⟩
  · rw [bumpJobStatus_eq_update] at h
    exact .inr ⟨status, rfl, h.symm⟩

theorem grows_finishAttempt {a : ℕ} {outcome : AttemptOutcome}
    (h : r.finishAttempt a outcome = .ok r') : r.Grows r' := by
  obtain ⟨attempt, -, ⟨-, rfl⟩ | ⟨status, -, rfl⟩⟩ := finishAttempt_eq_ok h
  · exact grows_setOutcome r a attempt outcome
  · exact (grows_setOutcome r a attempt outcome).trans (grows_updateStatus _ _ _)

/-- Without room for the status, the jobs stay as they are. -/
theorem finishAttempt_jobs_of_no_room {a : ℕ} {outcome : AttemptOutcome}
    (h : r.finishAttempt a outcome = .ok r') (hroom : r.hasRoom a outcome = false) :
    r'.jobs = r.jobs := by
  obtain ⟨attempt, hat, ⟨-, rfl⟩ | ⟨status, hstatus, rfl⟩⟩ := finishAttempt_eq_ok h
  · rfl
  rcases updateStatus_cases (r.setOutcome a attempt outcome) attempt.jobId status with
    hu | ⟨job, hjob, hv, -⟩
  · rw [hu]
    rfl
  · have hjob' : r.jobs.get? attempt.jobId = some job := hjob
    simp [hasRoom, hstatus, hat, hjob', hv] at hroom

end Registry

/-! ### The invariant -/

namespace ControlState

variable {s s' : ControlState} {r : Registry} {i : ℕ} {call : ControlCall} {phase : CallPhase}

/-- What the registry still shows of a call: a version that was accepted is
past, and what was changed is still there. -/
def Backs (r : Registry) (phase : CallPhase) : ControlCall → Prop
  | .setDesired job expected _ => (phase = .update → expected < maxControlVersion) ∧
      (phase.wrote = true → ∃ row, r.jobs.get? job = some row ∧ expected < row.controlVersion)
  | .markStatus job _ => phase.wrote = true → ∃ row, r.jobs.get? job = some row
  | .finishAttempt attempt _ => ∀ wrote, phase = .read wrote →
      wrote = true ∧ (r.attempts[attempt]?).isSome = true

/-- What holds of a call at any time after it was made. -/
structure Kept (r : Registry) (call : ControlCall) (phase : CallPhase) : Prop where
  backs : Backs r phase call
  reply : ∀ wrote reply, phase = .replied wrote reply → (reply.isRefused = true ↔ wrote = false)

/-- The versions stay below the cap, and one call at most is accepted for each. -/
structure Inv (s : ControlState) : Prop where
  capped : ∀ job row, s.registry.jobs.get? job = some row →
    row.controlVersion ≤ maxControlVersion
  kept : ∀ i call phase, s.calls i = some (call, phase) → Kept s.registry call phase
  /-- One call at most is accepted on the strength of a version. -/
  unique : ∀ i i' job expected desired desired' phase phase',
    s.calls i = some (.setDesired job expected desired, phase) →
    s.calls i' = some (.setDesired job expected desired', phase') →
    phase.wrote = true → phase'.wrote = true → i = i'

/-- What a call has read or written stays true of a registry that has grown. -/
theorem Kept.grows {r' : Registry} (h : Kept r call phase) (hgrows : r.Grows r') :
    Kept r' call phase := by
  refine ⟨?_, h.reply⟩
  have hbacks := h.backs
  cases call with
  | setDesired job expected desired =>
    refine ⟨hbacks.1, fun hwrote => ?_⟩
    obtain ⟨row, hrow, hlt⟩ := hbacks.2 hwrote
    obtain ⟨row', hrow', hsame⟩ := hgrows.rows job row hrow
    refine ⟨row', hrow', ?_⟩
    rcases hsame with rfl | hlt'
    · exact hlt
    · exact hlt.trans hlt'
  | markStatus job status =>
    intro hwrote
    obtain ⟨row, hrow⟩ := hbacks hwrote
    obtain ⟨row', hrow', -⟩ := hgrows.rows job row hrow
    exact ⟨row', hrow'⟩
  | finishAttempt attempt outcome =>
    intro wrote hphase
    obtain ⟨hwrote, hat⟩ := hbacks wrote hphase
    exact ⟨hwrote, hgrows.attempts attempt hat⟩

/-- The record grows with every write. -/
theorem grows_write (h : Kept r call .update) : r.Grows (write r call).2 := by
  cases call with
  | setDesired job expected desired =>
    exact Registry.grows_updateDesired r desired (h.backs.1 rfl)
  | markStatus job status => exact Registry.grows_updateStatus r job status
  | finishAttempt attempt outcome =>
    simp only [write]
    rcases hfin : r.finishAttempt attempt outcome with e | r'
    · exact .refl r
    · exact Registry.grows_finishAttempt hfin

/-- A call whose change is not made leaves the jobs as they are. -/
theorem write_jobs (r : Registry) (call : ControlCall) (h : (write r call).1.wrote = false) :
    (write r call).2.jobs = r.jobs := by
  cases call with
  | setDesired job expected desired =>
    rcases Registry.updateDesired_cases r job expected desired with hu | ⟨row, -, -, hu⟩ <;>
      simp only [write, hu] at h ⊢
    cases h
  | markStatus job status =>
    rcases Registry.updateStatus_cases r job status with hu | ⟨row, -, -, hu⟩ <;>
      simp only [write, hu] at h ⊢
    cases h
  | finishAttempt attempt outcome =>
    simp only [write] at h ⊢
    rcases hfin : r.finishAttempt attempt outcome with e | r'
    · rfl
    · rw [hfin] at h
      exact Registry.finishAttempt_jobs_of_no_room hfin h

/-- An accepted version was the current one. -/
theorem write_setDesired {job expected : ℕ} {desired : DesiredState}
    (h : (write r (.setDesired job expected desired)).1.wrote = true) :
    ∃ row, r.jobs.get? job = some row ∧ row.controlVersion = expected := by
  rcases Registry.updateDesired_cases r job expected desired with hu | ⟨row, hrow, hv, -⟩
  · simp only [write, hu] at h
    cases h
  · exact ⟨row, hrow, hv⟩

/-- What a write answers is true of the registry it leaves. -/
theorem kept_write (hok : ∀ attempt outcome, call = .finishAttempt attempt outcome →
      (r.finishAttempt attempt outcome).isOk = true → r.hasRoom attempt outcome = true) :
    Kept (write r call).2 call (write r call).1 := by
  cases call with
  | setDesired job expected desired =>
    refine ⟨⟨fun hno => (by cases hno), fun hwrote => ?_⟩, fun _ _ hno => by cases hno⟩
    rcases Registry.updateDesired_cases r job expected desired with hu | ⟨row, -, -, hu⟩ <;>
      simp only [write, hu] at hwrote ⊢
    · cases hwrote
    · exact ⟨_, SortedMap.get?_insert_self .., Nat.lt_succ_self _⟩
  | markStatus job status =>
    refine ⟨fun hwrote => ?_, fun _ _ hno => by cases hno⟩
    rcases Registry.updateStatus_cases r job status with hu | ⟨row, -, -, hu⟩ <;>
      simp only [write, hu] at hwrote ⊢
    · cases hwrote
    · exact ⟨_, SortedMap.get?_insert_self ..⟩
  | finishAttempt attempt outcome =>
    have hroom := hok attempt outcome rfl
    simp only [write]
    rcases hfin : r.finishAttempt attempt outcome with e | r'
    · refine ⟨fun _ hno => (by cases hno), ?_⟩
      rintro _ _ ⟨⟩
      exact iff_of_true rfl rfl
    · rw [hfin] at hroom
      refine ⟨?_, fun _ _ hno => by cases hno⟩
      rintro _ ⟨⟩
      refine ⟨hroom rfl, ?_⟩
      obtain ⟨record, hat, -⟩ := Registry.finishAttempt_eq_ok hfin
      exact (Registry.grows_finishAttempt hfin).attempts attempt (by rw [hat]; rfl)

/-- The read answers by what the write did. -/
theorem kept_answer {wrote : Bool} (h : Kept r call (.read wrote)) :
    Kept r call (.replied wrote (answer r wrote call)) := by
  have hbacks := h.backs
  cases call with
  | setDesired job expected desired =>
    refine ⟨⟨fun hno => (by cases hno), hbacks.2⟩, ?_⟩
    rintro _ _ ⟨⟩
    -- a record that was changed is still there, so only a refusal reads nothing
    rcases hrow : r.jobs.get? job with _ | row <;> simp only [answer, hrow]
    · refine iff_of_true rfl (Bool.eq_false_iff.mpr fun hwrote => ?_)
      obtain ⟨row, hrow', -⟩ := hbacks.2 hwrote
      rw [hrow] at hrow'
      cases hrow'
    · cases wrote <;> simp [ControlReply.isRefused]
  | markStatus job status =>
    refine ⟨hbacks, ?_⟩
    rintro _ _ ⟨⟩
    rcases hrow : r.jobs.get? job with _ | row <;> simp only [answer, hrow]
    · refine iff_of_true rfl (Bool.eq_false_iff.mpr fun hwrote => ?_)
      obtain ⟨row, hrow'⟩ := hbacks hwrote
      rw [hrow] at hrow'
      cases hrow'
    · cases wrote <;> simp [ControlReply.isRefused]
  | finishAttempt attempt outcome =>
    refine ⟨fun _ hno => (by cases hno), ?_⟩
    rintro _ _ ⟨⟩
    obtain ⟨rfl, hat⟩ := hbacks wrote rfl
    obtain ⟨record, hat⟩ := Option.isSome_iff_exists.mp hat
    simp only [answer, hat]
    exact iff_of_false (fun hno => by cases hno) (fun hno => by cases hno)

theorem kept_enter (r : Registry) (call : ControlCall) : Kept r call (enter call) := by
  cases call with
  | setDesired job expected desired =>
    simp only [enter]
    split_ifs with hcap
    · refine ⟨⟨fun hno => (by cases hno), fun hno => by cases hno⟩, ?_⟩
      rintro _ _ ⟨⟩
      exact iff_of_true rfl rfl
    · exact ⟨⟨fun _ => not_le.mp hcap, fun hno => by cases hno⟩, fun _ _ hno => by cases hno⟩
  | markStatus job status => exact ⟨fun hno => (by cases hno), fun _ _ hno => by cases hno⟩
  | finishAttempt attempt outcome =>
    exact ⟨fun _ hno => (by cases hno), fun _ _ hno => by cases hno⟩

theorem enter_wrote (call : ControlCall) : (enter call).wrote = false := by
  cases call with
  | setDesired job expected desired =>
    simp only [enter]
    split_ifs <;> rfl
  | markStatus job status => rfl
  | finishAttempt attempt outcome => rfl

/-! ### Steps -/

/-- What a step can do. -/
theorem step_cases {e : ControlEvent} (h : s.step e = some s') :
    (∃ i call, e = .invoke i call ∧ s.calls i = none ∧ s' = s.put i call (enter call)) ∨
    (∃ i call, e = .update i ∧ s.calls i = some (call, .update) ∧
      s' = { s with registry := (write s.registry call).2 }.put i call (write s.registry call).1) ∨
    (∃ i call wrote, e = .read i ∧ s.calls i = some (call, .read wrote) ∧
      s' = s.put i call (.replied wrote (answer s.registry wrote call))) := by
  cases e with
  | invoke i call =>
    simp only [step] at h
    split at h
    · next hi => exact .inl ⟨i, call, rfl, hi, (Option.some.inj h).symm⟩
    · cases h
  | update i =>
    simp only [step] at h
    split at h
    · next call hi => exact .inr (.inl ⟨i, call, rfl, hi, (Option.some.inj h).symm⟩)
    · cases h
  | read i =>
    simp only [step] at h
    split at h
    · next call wrote hi => exact .inr (.inr ⟨i, call, wrote, rfl, hi, (Option.some.inj h).symm⟩)
    · cases h

theorem put_calls (s : ControlState) (i : ℕ) (call : ControlCall) (phase : CallPhase) (j : ℕ) :
    (s.put i call phase).calls j = if j = i then some (call, phase) else s.calls j :=
  Function.update_apply ..

/-- A call moves on, and is not the second one accepted on its version. -/
theorem Inv.put (h : Inv s) (hkept : Kept s.registry call phase)
    (hunique : phase.wrote = true → ∀ job expected desired,
      call = .setDesired job expected desired → ∀ j desired' phase', j ≠ i →
      s.calls j = some (.setDesired job expected desired', phase') → phase'.wrote = false) :
    Inv (s.put i call phase) where
  capped := h.capped
  kept j call' phase' hj := by
    rw [put_calls] at hj
    split_ifs at hj
    · cases hj
      exact hkept
    · exact h.kept j call' phase' hj
  unique j j' job expected desired desired' p p' hj hj' hp hp' := by
    rw [put_calls] at hj hj'
    split_ifs at hj hj' with hji hji' hji'
    · rw [hji, hji']
    · cases hj
      rw [hunique hp job expected desired rfl j' desired' p' hji' hj'] at hp'
      cases hp'
    · cases hj'
      rw [hunique hp' job expected desired' rfl j desired p hji hj] at hp
      cases hp
    · exact h.unique j j' job expected desired desired' p p' hj hj' hp hp'

/-- **The invariant is kept** when every attempt that finishes has a version
left for its status. -/
theorem Inv.step (h : Inv s) {e : ControlEvent} (hok : s.reported e = true) (hs : s.step e = some s') :
    Inv s' := by
  rcases step_cases hs with ⟨i, call, rfl, hi, rfl⟩ | ⟨i, call, rfl, hi, rfl⟩ |
    ⟨i, call, wrote, rfl, hi, rfl⟩
  · refine h.put (kept_enter s.registry call) fun hwrote => ?_
    rw [enter_wrote] at hwrote
    cases hwrote
  · have hgrows := grows_write (h.kept i call .update hi)
    have h' : Inv { s with registry := (write s.registry call).2 } :=
      ⟨hgrows.capped h.capped, fun j c p hj => (h.kept j c p hj).grows hgrows, h.unique⟩
    refine h'.put (kept_write fun attempt outcome hcall => ?_) fun hwrote => ?_
    · rw [hcall] at hi
      simp only [reported, hi, Bool.or_eq_true, Bool.not_eq_true'] at hok
      exact fun hfin => hok.resolve_left (by rw [hfin]; exact Bool.true_eq_false_eq_False)
    · -- an earlier call on this version has moved the record past it
      rintro job expected desired rfl j desired' p hne hj
      obtain ⟨row, hrow, hv⟩ := write_setDesired hwrote
      by_contra hp
      rw [Bool.not_eq_false] at hp
      obtain ⟨row', hrow', hlt⟩ := (h.kept j _ p hj).backs.2 hp
      rw [hrow] at hrow'
      cases hrow'
      exact hlt.ne' hv
  · refine h.put (kept_answer (h.kept i call (.read wrote) hi)) fun hwrote => ?_
    rintro job expected desired rfl j desired' p hne hj
    by_contra hp
    rw [Bool.not_eq_false] at hp
    exact hne (h.unique j i job expected desired' desired p (.read wrote) hj hi hp hwrote)

theorem Starts.inv (h : Starts s) : Inv s where
  capped := h.versions
  kept i call phase hi := by
    rw [h.calls] at hi
    cases hi
  unique i i' job expected desired desired' phase phase' hi := by
    rw [h.calls] at hi
    cases hi

/-- **Control versions.**  In every run in which no attempt is finished whose
status its job has no version left for:

* versions stay within the cap, and no step changes a record without advancing
  its version;
* of the calls that move the desired state on the strength of one version, one
  at most is accepted;
* a call whose change was not made reports an error, and only such a call does;
  the jobs are as they were before its statement. -/
theorem control_versions {s : ControlState} (h : Reach step (fun s e => s.reported e = true) Starts s) :
    (∀ job row, s.registry.jobs.get? job = some row → row.controlVersion ≤ maxControlVersion) ∧
    (∀ e s', s.step e = some s' → ∀ job row, s.registry.jobs.get? job = some row →
      ∃ row', s'.registry.jobs.get? job = some row' ∧
        (row' = row ∨ row.controlVersion < row'.controlVersion)) ∧
    (∀ i i' job expected desired desired' phase phase',
      s.calls i = some (.setDesired job expected desired, phase) →
      s.calls i' = some (.setDesired job expected desired', phase') →
      phase.wrote = true → phase'.wrote = true → i = i') ∧
    (∀ i call wrote reply, s.calls i = some (call, .replied wrote reply) →
      (reply.isRefused = true ↔ wrote = false)) ∧
    ∀ i s' call phase, s.step (.update i) = some s' → s'.calls i = some (call, phase) →
      phase.wrote = false → s'.registry.jobs = s.registry.jobs := by
  have hinv : Inv s :=
    Reach.invariant (fun _ h₀ => h₀.inv) (fun s₁ e s₂ h₁ hok hs => h₁.step hok hs) h
  refine ⟨hinv.capped, fun e s' hs job row hrow => ?_, hinv.unique,
    fun i call wrote reply hi => (hinv.kept i call _ hi).reply wrote reply rfl,
    fun i s' call phase hs hi hwrote => ?_⟩
  · rcases step_cases hs with ⟨i, call, -, -, rfl⟩ | ⟨i, call, -, hi, rfl⟩ |
      ⟨i, call, wrote, -, -, rfl⟩
    · exact ⟨row, hrow, .inl rfl⟩
    · exact (grows_write (hinv.kept i call .update hi)).rows job row hrow
    · exact ⟨row, hrow, .inl rfl⟩
  · rcases step_cases hs with ⟨j, c, hno, -, -⟩ | ⟨j, c, he, hj, rfl⟩ | ⟨j, c, w, hno, -, -⟩
    · cases hno
    · cases he
      rw [put_calls, if_pos rfl] at hi
      cases hi
      exact write_jobs s.registry call hwrote
    · cases hno

/-- A registry with one job and its open attempt. -/
def oneJob (version : ℕ) : ControlState where
  registry := { jobs := SortedMap.empty.insert 0 ⟨.running, .active, version, some 0⟩
                attempts := [⟨0, 0, .initial, none⟩] }
  calls := fun _ => none

theorem starts_oneJob {version : ℕ} (h : version ≤ maxControlVersion) :
    Starts (oneJob version) where
  versions job row hrow := by
    rw [oneJob, SortedMap.get?_insert] at hrow
    split_ifs at hrow
    · cases hrow
      exact h
    · cases hrow
  calls _ := rfl

/-- Two commands carry the same version; the later statement finds it gone. -/
def rivals : List ControlEvent :=
  [.invoke 0 (.setDesired 0 5 .paused), .invoke 1 (.setDesired 0 5 .cancelled), .update 1,
    .update 0, .read 0, .read 1]

/-- Of two calls on one version, the one that comes second is refused. -/
theorem control_versions_rivals :
    ∃ s, runEvents step (oneJob 5) rivals = some s ∧
      (s.calls 0).map (·.2.wrote) = some false ∧ (s.calls 1).map (·.2.wrote) = some true ∧
      ∀ call wrote reply, s.calls 0 = some (call, .replied wrote reply) →
        (reply.isRefused = true ↔ wrote = false) := by
  have hend : ((runEvents step (oneJob 5) rivals).map fun s =>
      ((s.calls 0).map (·.2.wrote), (s.calls 1).map (·.2.wrote))) =
      some (some false, some true) := by rfl
  obtain ⟨s, hrun, hs⟩ := Option.map_eq_some_iff.mp hend
  obtain ⟨h₀, h₁⟩ := Prod.mk.inj hs
  have hreach : Reach step (fun s e => s.reported e = true) Starts s :=
    .of_run (.start (starts_oneJob (by decide))) (by decide) hrun
  exact ⟨s, hrun, h₀, h₁, (control_versions hreach).2.2.2.1 0⟩

/-- An attempt completes whose job has no version left. -/
def completedAtCap : List ControlEvent :=
  [.invoke 0 (.finishAttempt 0 .completed), .update 0, .read 0]

/-- The attempt is recorded as completed and returned, while the job is still
active: the exhausted version is not reported. -/
theorem finish_at_cap_unreported :
    ∃ s row record, Reach step (fun _ _ => True) Starts s ∧
      s.registry.jobs.get? 0 = some row ∧ row.status = .active ∧
      row.controlVersion = maxControlVersion ∧ record.outcome = some .completed ∧
      s.calls 0 =
        some (.finishAttempt 0 .completed, .replied false (.attempt record)) := by
  have hend : ((runEvents step (oneJob maxControlVersion) completedAtCap).map fun s =>
      (s.registry.jobs.get? 0, s.calls 0)) =
      some (some ⟨.running, .active, maxControlVersion, some 0⟩,
        some (.finishAttempt 0 .completed,
          .replied false (.attempt ⟨0, 0, .initial, some .completed⟩))) := by rfl
  obtain ⟨s, hrun, hs⟩ := Option.map_eq_some_iff.mp hend
  obtain ⟨hrow, hcall⟩ := Prod.mk.inj hs
  exact ⟨s, _, _, .of_run (.start (starts_oneJob le_rfl)) runOk_true hrun, hrow, rfl, rfl, rfl,
    hcall⟩

end ControlState

end KDown
