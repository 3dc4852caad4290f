/-
KDown/StartupRecovery.lean

A whole pass of startup recovery (app supervisor/recovery.rs), from any
registry an earlier process left.  The service accepts no requests before the
pass is over, so the planner and the supervisor's answers to it are all that
happens; a run that ends in the meantime is taken up afterwards.

`recoverStartup_run` says that the pass is a run of the planner's steps.  What
it does to one job depends on that job only: `Same` says that a registry agrees
with another on a job, and the pass is followed by the jobs it has not reached
(`Same` as before) and those it has (`Settled`).
-/
import KDown.SupervisorLatch

namespace KDown

/-! ### The pass -/

/-- The supervisor during a pass, with the calls of `enqueue_recovered`. -/
structure RecoveryPass where
  actor : Actor
  handed : List (ℕ × ℕ)

namespace RecoveryPass

variable (key : ℕ)

/-- The registry is replaced. -/
def withRegistry (p : RecoveryPass) (registry : Registry) : RecoveryPass :=
  { p with actor := { p.actor with registry := registry } }

/-- Mark the job unless it was listed with the status. -/
def markUnless (r : Registry) (job : ℕ) (listed : JobRecord) (status : DurableJobStatus) :
    Except AppError Registry :=
  if listed.status = status then .ok r else r.markStatus job status

/-- Begin the recovery attempt; who created it enqueues the job, and drops the
answer. -/
def handOver (p : RecoveryPass) (job : ℕ) (refusal : Option AppError) :
    Option AppError × RecoveryPass :=
  match p.actor.registry.beginRecoveryAttemptOnce job key with
  | .error e => (some e, p)
  | .ok ((attempt, created), registry) =>
      let p := p.withRegistry registry
      if created then
        (none, ⟨Actor.accept job (p.actor.enqueue key job (some attempt) refusal),
          p.handed ++ [(job, attempt)]⟩)
      else (none, p)

/-- One job of the list.  An error ends the pass. -/
def recoverJob (p : RecoveryPass) (job : ℕ) (listed : JobRecord) (refusal : Option AppError) :
    Option AppError × RecoveryPass :=
  match Actor.classify listed with
  | .resume =>
      match markUnless p.actor.registry job listed .recovering with
      | .error e => (some e, p)
      | .ok registry => (p.withRegistry registry).handOver key job refusal
  | .keepPaused =>
      match markUnless p.actor.registry job listed .paused with
      | .error e => (some e, p)
      | .ok registry => (none, p.withRegistry registry)
  | .keepTerminal => (none, p)

/-- The listed jobs in their order, up to the first error. -/
def recoverLoop (refusals : ℕ → Option AppError) :
    ℕ → List (ℕ × JobRecord) → RecoveryPass → Option AppError × RecoveryPass
  | _, [], p => (none, p)
  | n, (job, listed) :: rest, p =>
      let answer := p.recoverJob key job listed (refusals n)
      match answer.1 with
      | some e => (some e, answer.2)
      | none => recoverLoop refusals (n + 1) rest answer.2

end RecoveryPass

/-- Recover every job that is not terminal.  `refusals` are the errors of the
launches, by the position of the job in the list. -/
def recoverStartup (key : ℕ) (s : Actor) (refusals : ℕ → Option AppError) :
    Option AppError × RecoveryPass :=
  RecoveryPass.recoverLoop key refusals 0 s.registry.listRecoverable ⟨s, []⟩

/-! ### As a run of the planner's steps -/

namespace Actor

variable (key : ℕ)

/-- The fields that only the planner reads and writes. -/
def plan (s : Actor) (recovery : List (ℕ × JobRecord)) (stage : RecoveryStage) : Actor :=
  { s with recovery := recovery, stage := stage }

theorem launchJob_plan (s : Actor) (recovery : List (ℕ × JobRecord)) (stage : RecoveryStage)
    (job : ℕ) (reason : AttemptReason) (prebound : Option ℕ) (refusal : Option AppError) :
    (s.plan recovery stage).launchJob key job reason prebound refusal =
      ((s.launchJob key job reason prebound refusal).1,
        (s.launchJob key job reason prebound refusal).2.plan recovery stage) := by
  have hfor : (s.plan recovery stage).attemptFor key job reason prebound =
      s.attemptFor key job reason prebound := by
    cases prebound <;> rfl
  unfold launchJob
  rw [hfor]
  rcases s.attemptFor key job reason prebound with e | ⟨attempt, r₁⟩
  · rfl
  · rcases hmark : r₁.markStatus job .active with e | r₂ <;> simp only [hmark]
    · rfl
    · cases refusal <;> rfl

/-- Enqueueing looks at nothing that the recovery keeps. -/
theorem enqueue_plan (s : Actor) (recovery : List (ℕ × JobRecord)) (stage : RecoveryStage)
    (job : ℕ) (prebound : Option ℕ) (refusal : Option AppError) :
    accept job ((s.plan recovery stage).enqueue key job prebound refusal) =
      (accept job (s.enqueue key job prebound refusal)).plan recovery stage := by
  have haccept : ∀ answer : Option AppError × Actor,
      accept job (answer.1, answer.2.plan recovery stage) =
        (accept job answer).plan recovery stage := by
    rintro ⟨_ | e, t⟩ <;> rfl
  rw [← haccept]
  congr 1
  unfold enqueue
  have hload : (s.plan recovery stage).registry.loadJob job = s.registry.loadJob job := rfl
  have hfull : (s.plan recovery stage).full = s.full := rfl
  rw [hload, hfull]
  rcases s.registry.loadJob job with e | row <;> dsimp only
  split_ifs
  · rfl
  · rfl
  · exact launchJob_plan key s recovery stage job .initial prebound refusal

end Actor

namespace RecoveryPass

variable (key : ℕ)

/-- A hand-over is a run of the supervisor. -/
theorem handOver_run (p : RecoveryPass) (job : ℕ) (listed : JobRecord)
    (refusal : Option AppError) (rest : List (ℕ × JobRecord)) :
    ∃ es, runEvents (supervisorStep key) (p.actor.plan ((job, listed) :: rest) .begin) es =
      some ((p.handOver key job refusal).2.actor.plan
        (if (p.handOver key job refusal).1.isSome then [] else rest) .classify) := by
  unfold handOver
  rcases hbegin : p.actor.registry.beginRecoveryAttemptOnce job key with
    e | ⟨⟨attempt, created⟩, r₁⟩ <;> dsimp only
  · refine ⟨[.recoverBegin], ?_⟩
    simp [runEvents, supervisorStep, Actor.plan, Actor.recoverBegin, hbegin]
  cases created with
  | false =>
    refine ⟨[.recoverBegin], ?_⟩
    simp [runEvents, supervisorStep, Actor.plan, Actor.recoverBegin, hbegin, Actor.recoverNext,
      withRegistry]
  | true =>
    refine ⟨[.recoverBegin, .recoverEnqueue refusal], ?_⟩
    have henqueue := Actor.enqueue_plan key (p.withRegistry r₁).actor ((job, listed) :: rest)
      (.enqueue attempt) job (some attempt) refusal
    have hbegun : supervisorStep key (p.actor.plan ((job, listed) :: rest) .begin) .recoverBegin =
        some ((p.withRegistry r₁).actor.plan ((job, listed) :: rest) (.enqueue attempt)) := by
      simp [supervisorStep, Actor.plan, Actor.recoverBegin, hbegin, withRegistry]
    rw [runEvents, hbegun, Option.bind_some, runEvents]
    show (some (Actor.recoverNext (Actor.accept job _))).bind _ = _
    rw [henqueue]
    rfl

/-- The planner's steps for one job; after an error its list is empty. -/
theorem recoverJob_run (p : RecoveryPass) (job : ℕ) (listed : JobRecord)
    (refusal : Option AppError) (rest : List (ℕ × JobRecord)) :
    ∃ es, runEvents (supervisorStep key) (p.actor.plan ((job, listed) :: rest) .classify) es =
      some ((p.recoverJob key job listed refusal).2.actor.plan
        (if (p.recoverJob key job listed refusal).1.isSome then [] else rest) .classify) := by
  rcases hclass : Actor.classify listed with _ | _ | _
  · have hmarked : ∀ registry, markUnless p.actor.registry job listed .recovering = .ok registry →
        supervisorStep key (p.actor.plan ((job, listed) :: rest) .classify) .recoverClassify =
          some ((p.withRegistry registry).actor.plan ((job, listed) :: rest) .begin) := by
      intro registry hok
      unfold markUnless at hok
      simp only [supervisorStep, Actor.plan, Actor.recoverClassify, hclass, Actor.recoverMark]
      split_ifs at hok ⊢ with hlisted
      · cases hok
        rfl
      · simp only [hok]
        rfl
    rcases hok : markUnless p.actor.registry job listed .recovering with e | registry
    · refine ⟨[.recoverClassify], ?_⟩
      unfold markUnless at hok
      split_ifs at hok with hlisted
      simp [runEvents, supervisorStep, Actor.plan, Actor.recoverClassify, Actor.recoverMark, hclass,
        hlisted, recoverJob, markUnless, hok]
    · obtain ⟨es, hes⟩ := (p.withRegistry registry).handOver_run key job listed refusal rest
      refine ⟨.recoverClassify :: es, ?_⟩
      rw [runEvents, hmarked registry hok, Option.bind_some, hes]
      simp only [recoverJob, hclass, hok]
  · by_cases hlisted : listed.status = .paused
    · refine ⟨[.recoverClassify], ?_⟩
      simp [runEvents, supervisorStep, Actor.plan, Actor.recoverClassify, Actor.recoverMark, hclass,
        hlisted, recoverJob, markUnless, Actor.recoverNext, withRegistry]
    · refine ⟨[.recoverClassify], ?_⟩
      rcases hmark : p.actor.registry.markStatus job .paused with e | r₁ <;>
      simp [runEvents, supervisorStep, Actor.plan, Actor.recoverClassify, Actor.recoverMark, hclass,
        hlisted, recoverJob, markUnless, Actor.recoverNext, withRegistry, hmark]
  · refine ⟨[.recoverClassify], ?_⟩
    simp [runEvents, supervisorStep, Actor.plan, Actor.recoverClassify, hclass, recoverJob,
      Actor.recoverNext]

/-- **The loop of the recovery is a run of the supervisor**, hand-over by
hand-over. -/
theorem recoverLoop_run (refusals : ℕ → Option AppError) (n : ℕ)
    (jobs : List (ℕ × JobRecord)) (p : RecoveryPass) :
    ∃ es, runEvents (supervisorStep key) (p.actor.plan jobs .classify) es =
      some ((recoverLoop key refusals n jobs p).2.actor.plan [] .classify) := by
  induction jobs generalizing n p with
  | nil => exact ⟨[], rfl⟩
  | cons entry rest ih =>
    obtain ⟨job, listed⟩ := entry
    obtain ⟨es, hes⟩ := p.recoverJob_run key job listed (refusals n) rest
    rcases hanswer : (p.recoverJob key job listed (refusals n)).1 with _ | e <;>
      simp only [hanswer, recoverLoop] at hes ⊢
    · obtain ⟨es', hes'⟩ := ih (n + 1) (p.recoverJob key job listed (refusals n)).2
      refine ⟨es ++ es', ?_⟩
      rw [runEvents_append, hes]
      exact hes'
    · exact ⟨es, hes⟩

end RecoveryPass

/-- **The pass is a run of the planner's steps.** -/
theorem recoverStartup_run (key : ℕ) {s : Actor} (hidle : s.recovery = [])
    (refusals : ℕ → Option AppError) :
    ∃ es, runEvents (supervisorStep key) s es =
      some ((recoverStartup key s refusals).2.actor.plan [] .classify) := by
  obtain ⟨es, hes⟩ := RecoveryPass.recoverLoop_run key refusals 0 s.registry.listRecoverable ⟨s, []⟩
  refine ⟨.recoverList :: es, ?_⟩
  have hlist : supervisorStep key s .recoverList =
      some (s.plan s.registry.listRecoverable .classify) := by
    simp [supervisorStep, hidle, Actor.plan]
  rw [runEvents, hlist]
  exact hes

/-! ### What happens to one job -/

namespace Registry

variable {r r' r'' : Registry} {j k key : ℕ}

/-- The two registries agree on the job and on its attempts. -/
structure Same (r r' : Registry) (job : ℕ) : Prop where
  row : r'.jobs.get? job = r.jobs.get? job
  attempts : ∀ (a : ℕ) (record : AttemptRecord), record.jobId = job →
    (r'.attempts[a]? = some record ↔ r.attempts[a]? = some record)

theorem Same.refl (r : Registry) (j : ℕ) : r.Same r j := ⟨rfl, fun _ _ _ => Iff.rfl⟩

theorem Same.trans (h : r.Same r' j) (h' : r'.Same r'' j) : r.Same r'' j :=
  ⟨h'.row.trans h.row, fun a record hjob =>
    (h'.attempts a record hjob).trans (h.attempts a record hjob)⟩

theorem same_putJob (row : JobRecord) (hne : k ≠ j) : r.Same (r.putJob j row) k :=
  ⟨SortedMap.get?_insert_of_ne _ _ hne, fun _ _ _ => Iff.rfl⟩

/-- Interrupting the attempts of another job. -/
theorem same_interrupt (r : Registry) (hne : k ≠ j) :
    r.Same { r with attempts := r.attempts.map fun (x : AttemptRecord) =>
      if x.jobId = j then interrupt x else x } k := by
  refine ⟨rfl, fun a record hjob => ?_⟩
  rw [List.getElem?_map, Option.map_eq_some_iff]
  constructor
  · rintro ⟨old, hold, hmap⟩
    split_ifs at hmap with hj
    · -- an interrupted attempt still belongs to the other job
      have hid : (interrupt old).jobId = old.jobId := interrupt_jobId old
      rw [hmap, hjob, hj] at hid
      exact absurd hid hne
    · exact hmap ▸ hold
  · intro hold
    exact ⟨record, hold, if_neg fun hj => hne (hjob ▸ hj)⟩

/-- A new attempt of another job. -/
theorem same_insertAttempt {row : JobRecord} (reason : AttemptReason) (hne : k ≠ j) :
    r.Same (r.insertAttempt j row reason key) k := by
  refine ⟨SortedMap.get?_insert_of_ne _ _ hne, fun a record hjob => ?_⟩
  show (r.attempts ++ [⟨j, key, reason, none⟩])[a]? = some record ↔ _
  rcases lt_trichotomy a r.attempts.length with hlt | rfl | hgt
  · rw [List.getElem?_append_left hlt]
  · have hnone : r.attempts[r.attempts.length]? = none := List.getElem?_eq_none le_rfl
    rw [hnone, List.getElem?_append_right le_rfl, Nat.sub_self]
    constructor
    · rintro ⟨rfl⟩
      exact absurd hjob.symm hne
    · rintro ⟨⟩
  · have hnone : r.attempts[a]? = none := List.getElem?_eq_none hgt.le
    have hnone' : (r.attempts ++ [⟨j, key, reason, none⟩])[a]? = none :=
      List.getElem?_eq_none (by simpa [Nat.succ_le_iff] using hgt)
    rw [hnone, hnone']

/-- The registry after an open attempt failed to launch. -/
theorem recordOutcome_failed {a : ℕ} {row : JobRecord} {attempt : AttemptRecord} (code : String)
    (hat : r.attempts[a]? = some attempt) (hopen : attempt.outcome = none)
    (hrow : r.jobs.get? attempt.jobId = some row) (hv : row.controlVersion < maxControlVersion) :
    r.recordOutcome a (.failed code none) =
      { jobs := r.jobs.insert attempt.jobId (withStatus row .failed)
        attempts := r.attempts.set a { attempt with outcome := some (.failed code none) } } := by
  simp only [recordOutcome, finishAttempt, hat, hopen, Option.isSome_none, Bool.false_eq_true,
    if_false, AttemptOutcome.status, bumpJobStatus, hrow, if_pos hv, putJob]

theorem same_recordOutcome {a : ℕ} {attempt : AttemptRecord} {row : JobRecord} {code : String}
    (hat : r.attempts[a]? = some attempt) (hne : k ≠ attempt.jobId) :
    r.Same { jobs := r.jobs.insert attempt.jobId row
             attempts := r.attempts.set a { attempt with outcome := some (.failed code none) } } k := by
  refine ⟨SortedMap.get?_insert_of_ne _ _ hne, fun b record hjob => ?_⟩
  rcases eq_or_ne b a with rfl | hba
  · have hlt := (List.getElem?_eq_some_iff.mp hat).1
    rw [List.getElem?_set_self hlt, hat]
    constructor
    · rintro ⟨rfl⟩
      exact absurd hjob.symm hne
    · rintro ⟨rfl⟩
      exact absurd hjob.symm hne
  · rw [List.getElem?_set_ne hba.symm]

/-! ### A job that is resumed -/

end Registry

/-- What the supervisor does with a job it is handed. -/
inductive Fate
  | queued
  | launched
  | failed
  deriving DecidableEq

/-- The status the job is left with. -/
def Fate.status : Fate → DurableJobStatus
  | .queued => .recovering
  | .launched => .active
  | .failed => .failed

/-- A job is queued while no slot is open, and else launched or refused. -/
def fateOf (full : Bool) (refusal : Option AppError) : Fate :=
  if full then .queued else if refusal.isNone then .launched else .failed

/-- The job runs under its recovery attempt, or failed under it, and every other
attempt of the job is finished. -/
structure Resumed (key : ℕ) (r : Registry) (job attempt : ℕ) (fate : Fate) : Prop where
  row : ∃ row, r.jobs.get? job = some row ∧ row.desiredState = .running ∧
    row.status = fate.status ∧ (fate = .launched → row.controlVersion < maxControlVersion)
  begun : ∃ outcome, r.attempts[attempt]? = some ⟨job, key, .recovery, outcome⟩ ∧
    (outcome = none ↔ fate ≠ .failed)
  others : ∀ (b : ℕ) (record : AttemptRecord), r.attempts[b]? = some record →
    record.jobId = job → b ≠ attempt → record.outcome.isSome = true

/-- It is a matter of the job alone. -/
theorem Resumed.same {key job attempt : ℕ} {fate : Fate} {r r' : Registry}
    (h : Resumed key r job attempt fate) (hsame : r.Same r' job) :
    Resumed key r' job attempt fate where
  row := by
    obtain ⟨row, hrow, hrest⟩ := h.row
    exact ⟨row, hsame.row.trans hrow, hrest⟩
  begun := by
    obtain ⟨outcome, hat, hrest⟩ := h.begun
    exact ⟨outcome, (hsame.attempts _ _ rfl).mpr hat, hrest⟩
  others b record hat hjob := h.others b record ((hsame.attempts b record hjob).mp hat) hjob

namespace RecoveryPass

variable {key job : ℕ} {p : RecoveryPass}

/-- The registry with the recovery attempt of the job begun. -/
def begun (key : ℕ) (r : Registry) (job : ℕ) (row : JobRecord) : Registry :=
  { r with attempts := r.attempts.map fun (x : AttemptRecord) =>
      if x.jobId = job then Registry.interrupt x else x }.insertAttempt job row .recovery key

theorem begun_row (r : Registry) (row : JobRecord) :
    (begun key r job row).jobs.get? job =
      some { row with currentAttemptId := some (r.attempts.length) } := by
  simp [begun, Registry.insertAttempt]

theorem begun_attempt (r : Registry) (row : JobRecord) :
    (begun key r job row).attempts[r.attempts.length]? = some ⟨job, key, .recovery, none⟩ := by
  simp [begun, Registry.insertAttempt]

theorem begun_others (r : Registry) (row : JobRecord) {b : ℕ} {record : AttemptRecord}
    (hat : (begun key r job row).attempts[b]? = some record) (hjob : record.jobId = job)
    (hne : b ≠ r.attempts.length) : record.outcome.isSome = true := by
  have hlen : (begun key r job row).attempts.length = r.attempts.length + 1 := by
    simp [begun, Registry.insertAttempt]
  have hlt : b < r.attempts.length := by
    have := (List.getElem?_eq_some_iff.mp hat).1
    omega
  simp only [begun, Registry.insertAttempt] at hat
  rw [List.getElem?_append_left (by simpa using hlt), List.getElem?_map] at hat
  obtain ⟨old, -, rfl⟩ := Option.map_eq_some_iff.mp hat
  -- what was unfinished is interrupted
  split_ifs at hjob ⊢ with hold
  · unfold Registry.interrupt
    rcases ho : old.outcome with _ | o <;> simp [ho]
  · exact absurd hjob hold

theorem same_begun (r : Registry) (row : JobRecord) {k : ℕ} (hne : k ≠ job) :
    r.Same (begun key r job row) k :=
  (Registry.same_interrupt r hne).trans (Registry.same_insertAttempt .recovery hne)

/-- A begun job that is queued, launched or refused. -/
theorem resumed_of_begun {r r' : Registry} (row : JobRecord) {row' : JobRecord} {fate : Fate}
    {outcome : Option AttemptOutcome}
    (hrow : r'.jobs.get? job = some row') (hdesired : row'.desiredState = .running)
    (hstatus : row'.status = fate.status)
    (hroom : fate = .launched → row'.controlVersion < maxControlVersion)
    (hattempts : r'.attempts = (begun key r job row).attempts.set r.attempts.length
      ⟨job, key, .recovery, outcome⟩) (houtcome : outcome = none ↔ fate ≠ .failed) :
    Resumed key r' job r.attempts.length fate := by
  have hlt : r.attempts.length < (begun key r job row).attempts.length :=
    (List.getElem?_eq_some_iff.mp (begun_attempt r row)).1
  refine ⟨⟨row', hrow, hdesired, hstatus, hroom⟩, ⟨outcome, ?_, houtcome⟩, fun b record hat hjob hne => ?_⟩
  · rw [hattempts, List.getElem?_set_self hlt]
  · rw [hattempts, List.getElem?_set_ne hne.symm] at hat
    exact begun_others r row hat hjob hne

/-- What a job handed over leaves of the supervisor besides the registry. -/
structure Admitted (s s' : Actor) (fate : Fate) : Prop where
  maxActive : s'.maxActive = s.maxActive
  shuttingDown : s'.shuttingDown = s.shuttingDown
  active : fate ≠ .launched → s'.active = s.active

theorem begun_set (r : Registry) (row : JobRecord) :
    (begun key r job row).attempts.set r.attempts.length ⟨job, key, .recovery, none⟩ =
      (begun key r job row).attempts := by
  obtain ⟨hlt, hget⟩ := List.getElem?_eq_some_iff.mp (begun_attempt r row)
  rw [← hget, List.set_getElem_self hlt]

/-- The supervisor is handed a job whose recovery attempt is begun. -/
theorem enqueue_begun {s : Actor} {r : Registry} {row : JobRecord}
    (hregistry : s.registry = begun key r job row) (hdesired : row.desiredState = .running)
    (hstatus : row.status = .recovering) (hroom : row.controlVersion + 1 < maxControlVersion)
    (refusal : Option AppError) :
    (∀ k ≠ job, r.Same (s.enqueue key job (some r.attempts.length) refusal).2.registry k) ∧
    Resumed key (s.enqueue key job (some r.attempts.length) refusal).2.registry job
      r.attempts.length (fateOf s.full refusal) ∧
    Admitted s (s.enqueue key job (some r.attempts.length) refusal).2 (fateOf s.full refusal) := by
  have hrow : s.registry.jobs.get? job =
      some { row with currentAttemptId := some r.attempts.length } := by
    rw [hregistry]
    exact begun_row r row
  have hopen : row.status.isTerminal = false := by
    rw [hstatus]
    rfl
  have hat : s.registry.attempts[r.attempts.length]? = some ⟨job, key, .recovery, none⟩ := by
    rw [hregistry]
    exact begun_attempt r row
  unfold fateOf
  by_cases hfull : s.full = true
  · have henqueue : s.enqueue key job (some r.attempts.length) refusal =
        (none, { s with queue := s.queue ++ [job] }) := by
      simp [Actor.enqueue, Registry.loadJob, hrow, hopen, hfull]
    rw [henqueue, if_pos hfull]
    refine ⟨fun k hne => hregistry ▸ same_begun r row hne, ?_, rfl, rfl, fun _ => rfl⟩
    exact resumed_of_begun row hrow hdesired hstatus (fun hno => by cases hno)
      (by rw [begun_set]; exact congrArg _ hregistry) (by simp)
  rw [if_neg hfull]
  -- the launch marks the job, and fails by its refusal only
  have hmark : s.registry.markStatus job .active = .ok (s.registry.putJob job
      (Registry.withStatus { row with currentAttemptId := some r.attempts.length } .active)) :=
    Registry.markStatus_ok hrow (Nat.lt_of_succ_lt hroom) .active
  have hlaunch : s.enqueue key job (some r.attempts.length) refusal =
      s.launchJob key job .initial (some r.attempts.length) refusal := by
    simp [Actor.enqueue, Registry.loadJob, hrow, hopen, hfull]
  rw [hlaunch]
  have hfor : s.attemptFor key job .initial (some r.attempts.length) =
      .ok (r.attempts.length, s.registry) := by
    simp [Actor.attemptFor, Registry.loadAttempt, hat, Except.map]
  have hsame : ∀ k ≠ job, r.Same (s.registry.putJob job (Registry.withStatus
      { row with currentAttemptId := some r.attempts.length } .active)) k := fun k hne =>
    (hregistry ▸ same_begun r row hne).trans (Registry.same_putJob _ hne)
  cases refusal with
  | none =>
    simp only [Actor.launchJob, hfor, hmark]
    refine ⟨hsame, ?_, rfl, rfl, fun hnot => absurd rfl hnot⟩
    refine resumed_of_begun row (SortedMap.get?_insert_self ..) hdesired rfl (fun _ => hroom) ?_
      (iff_of_true rfl fun hno => by cases hno)
    show s.registry.attempts = _
    rw [hregistry, begun_set]
  | some e =>
    simp only [Actor.launchJob, hfor, hmark]
    have hrecord := Registry.recordOutcome_failed e.code
      (r := s.registry.putJob job (Registry.withStatus
        { row with currentAttemptId := some r.attempts.length } .active)) hat rfl
      (SortedMap.get?_insert_self ..) hroom
    rw [hrecord]
    refine ⟨fun k hne => (hsame k hne).trans ?_, ?_, rfl, rfl, fun _ => rfl⟩
    · exact Registry.same_recordOutcome hat hne
    · have hattempts : s.registry.attempts.set r.attempts.length
          ⟨job, key, .recovery, some (.failed e.code none)⟩ =
          (begun key r job row).attempts.set r.attempts.length
            ⟨job, key, .recovery, some (.failed e.code none)⟩ := by rw [hregistry]
      exact resumed_of_begun row (SortedMap.get?_insert_self ..) hdesired rfl (by simp) hattempts
        (by simp)

/-! ### The loop -/

/-- How the pass leaves a job that it listed as `row`: `r` is the registry it
began with, and `busy` holds if the job was launched. -/
structure Settled (key : ℕ) (r : Registry) (busy : Prop) (p : RecoveryPass) (job : ℕ)
    (row : JobRecord) : Prop where
  resumed : Actor.classify row = .resume → ∃ attempt fate,
    Resumed key p.actor.registry job attempt fate ∧
    p.handed.filter (·.1 = job) = [(job, attempt)] ∧ (fate = .launched → busy)
  paused : Actor.classify row = .keepPaused → ∃ row',
    p.actor.registry.jobs.get? job = some row' ∧ row'.status = .paused ∧
    row'.desiredState = .paused
  kept : Actor.classify row = .keepTerminal → p.actor.registry.jobs.get? job = some row
  attempts : Actor.classify row ≠ .resume → ∀ (a : ℕ) (record : AttemptRecord),
    record.jobId = job →
    (p.actor.registry.attempts[a]? = some record ↔ r.attempts[a]? = some record)

/-- The rest of the pass leaves the job alone. -/
structure Passes (p p' : RecoveryPass) (job : ℕ) : Prop where
  same : p.actor.registry.Same p'.actor.registry job
  handed : p'.handed.filter (·.1 = job) = p.handed.filter (·.1 = job)

theorem Passes.refl (p : RecoveryPass) (job : ℕ) : Passes p p job := ⟨.refl .., rfl⟩

theorem Passes.trans {p' p'' : RecoveryPass} (h : Passes p p' job) (h' : Passes p' p'' job) :
    Passes p p'' job :=
  ⟨h.same.trans h'.same, h'.handed.trans h.handed⟩

theorem Settled.passes {r : Registry} {busy : Prop} {row : JobRecord} {p' : RecoveryPass}
    (h : Settled key r busy p job row) (hpass : Passes p p' job) :
    Settled key r busy p' job row where
  resumed hclass := by
    obtain ⟨attempt, fate, hresumed, hhanded, hbusy⟩ := h.resumed hclass
    exact ⟨attempt, fate, hresumed.same hpass.same, hpass.handed.trans hhanded, hbusy⟩
  paused hclass := by
    obtain ⟨row', hrow', hrest⟩ := h.paused hclass
    exact ⟨row', hpass.same.row.trans hrow', hrest⟩
  kept hclass := hpass.same.row.trans (h.kept hclass)
  attempts hclass a record hjob :=
    (hpass.same.attempts a record hjob).trans (h.attempts hclass a record hjob)

theorem Settled.imp {r : Registry} {busy busy' : Prop} {row : JobRecord}
    (h : Settled key r busy p job row) (hbusy : Actor.classify row = .resume → busy → busy') :
    Settled key r busy' p job row where
  resumed hclass := by
    obtain ⟨attempt, fate, hresumed, hhanded, hlaunched⟩ := h.resumed hclass
    exact ⟨attempt, fate, hresumed, hhanded, fun hfate => hbusy hclass (hlaunched hfate)⟩
  paused := h.paused
  kept := h.kept
  attempts := h.attempts

/-- A job of the list, as a previous process left it. -/
structure Listed (r : Registry) (job : ℕ) (row : JobRecord) : Prop where
  found : r.jobs.get? job = some row
  nonterminal : row.status.isTerminal = false
  room : row.controlVersion + 2 < maxControlVersion

theorem classify_resume {row : JobRecord} (hclass : Actor.classify row = .resume) :
    row.desiredState = .running := by
  obtain ⟨desired, status, version, attempt⟩ := row
  cases desired <;> cases status <;> first | rfl | cases hclass

theorem classify_keepPaused {row : JobRecord} (hclass : Actor.classify row = .keepPaused) :
    row.desiredState = .paused := by
  obtain ⟨desired, status, version, attempt⟩ := row
  cases desired <;> cases status <;> first | rfl | cases hclass

/-- A mark that the listed status does not spare succeeds. -/
theorem markUnless_ok {r : Registry} {row : JobRecord} (hrow : r.jobs.get? job = some row)
    (hv : row.controlVersion < maxControlVersion) (status : DurableJobStatus) :
    ∃ r' row', markUnless r job row status = .ok r' ∧ r'.jobs.get? job = some row' ∧
      row'.status = status ∧ row'.desiredState = row.desiredState ∧
      row'.controlVersion ≤ row.controlVersion + 1 ∧ r'.attempts = r.attempts ∧
      ∀ k ≠ job, r.Same r' k := by
  unfold markUnless
  split_ifs with hlisted
  · exact ⟨r, row, rfl, hrow, hlisted, rfl, Nat.le_succ _, rfl, fun k _ => .refl r k⟩
  · refine ⟨_, _, Registry.markStatus_ok hrow hv status, SortedMap.get?_insert_self .., rfl, rfl,
      le_rfl, rfl, fun k hne => Registry.same_putJob _ hne⟩

/-- No attempt of a job that was not reached carries the key of this process. -/
theorem attemptByLaunchKey_none {r r' : Registry} (hfresh : ∀ a ∈ r.attempts, a.launchKey ≠ key)
    (hsame : r.Same r' job) : r'.attemptByLaunchKey job key = none := by
  refine List.findIdx?_eq_none_iff.mpr fun record hmem => ?_
  obtain ⟨a, hat⟩ := List.mem_iff_getElem?.mp hmem
  by_cases hjob : record.jobId = job
  · have hne := hfresh record (List.mem_of_getElem? ((hsame.attempts a record hjob).mp hat))
    simp [hne]
  · simp [hjob]

theorem accept_registry (job : ℕ) (answer : Option AppError × Actor) :
    (Actor.accept job answer).registry = answer.2.registry := by
  unfold Actor.accept
  split <;> rfl

theorem Admitted.accept {s : Actor} {answer : Option AppError × Actor} {fate : Fate}
    (h : Admitted s answer.2 fate) (k : ℕ) : Admitted s (Actor.accept k answer) fate := by
  unfold Actor.accept
  split
  · exact ⟨h.maxActive, h.shuttingDown, h.active⟩
  · exact h

theorem fateOf_launched {full : Bool} {refusal : Option AppError}
    (h : fateOf full refusal = .launched) : full = false ∧ refusal = none := by
  unfold fateOf at h
  cases full <;> cases refusal <;> simp_all

/-- One job of the list. -/
theorem recoverJob_spec {r : Registry} {row : JobRecord} (hlisted : Listed r job row)
    (hfresh : ∀ a ∈ r.attempts, a.launchKey ≠ key) (hsame : r.Same p.actor.registry job)
    (hhanded : ∀ e ∈ p.handed, e.1 ≠ job) (refusal : Option AppError) :
    ∃ p', p.recoverJob key job row refusal = (none, p') ∧ (∀ k ≠ job, Passes p p' k) ∧
      Settled key r (p.actor.full = false ∧ refusal = none) p' job row ∧
      (Actor.classify row = .resume → ∃ attempt,
        Resumed key p'.actor.registry job attempt (fateOf p.actor.full refusal)) ∧
      Admitted p.actor p'.actor
        (if Actor.classify row = .resume then fateOf p.actor.full refusal else .queued) := by
  have hrow : p.actor.registry.jobs.get? job = some row := hsame.row.trans hlisted.found
  have hroom := hlisted.room
  rcases hclass : Actor.classify row with _ | _ | _
  · -- resume: mark, begin, and hand the job over
    obtain ⟨r₁, row₁, hmark, hrow₁, hstatus, hdesired, hversion, hattempts, hothers⟩ :=
      markUnless_ok hrow (by omega) .recovering
    have hkey : r₁.attemptByLaunchKey job key = none := by
      have hkey := attemptByLaunchKey_none hfresh hsame
      unfold Registry.attemptByLaunchKey at hkey ⊢
      rw [hattempts]
      exact hkey
    have hbegin : r₁.beginRecoveryAttemptOnce job key =
        .ok ((r₁.attempts.length, true), begun key r₁ job row₁) := by
      simp [Registry.beginRecoveryAttemptOnce, hrow₁, hkey, begun]
    obtain ⟨hsame₂, hresumed, hadmitted⟩ := enqueue_begun
      (s := { p.actor with registry := begun key r₁ job row₁ }) rfl
      (hdesired.trans (classify_resume hclass)) hstatus (by omega) refusal
    refine ⟨⟨Actor.accept job (Actor.enqueue key { p.actor with registry := begun key r₁ job row₁ }
      job (some r₁.attempts.length) refusal), p.handed ++ [(job, r₁.attempts.length)]⟩, ?_, ?_, ?_,
      fun _ => ⟨_, by rw [accept_registry]; exact hresumed⟩, ?_⟩
    · simp only [recoverJob, hclass, hmark, handOver, withRegistry, hbegin, if_true]
    · intro k hne
      refine ⟨(hothers k hne).trans ?_, ?_⟩
      · rw [accept_registry]
        exact hsame₂ k hne
      · simp [List.filter_append, hne.symm]
    · have hnone : p.handed.filter (·.1 = job) = [] :=
        List.filter_eq_nil_iff.mpr fun e he => by simpa using hhanded e he
      refine ⟨fun _ => ⟨_, _, by rw [accept_registry]; exact hresumed, ?_, fateOf_launched⟩,
        fun h => ?_, fun h => ?_, fun h => absurd hclass h⟩
      · rw [List.filter_append, hnone]
        simp
      · rw [hclass] at h
        cases h
      · rw [hclass] at h
        cases h
    · rw [if_pos rfl]
      have haccept := hadmitted.accept job
      exact ⟨haccept.maxActive, haccept.shuttingDown, haccept.active⟩
  · obtain ⟨r₁, row₁, hmark, hrow₁, hstatus, hdesired, -, hattempts, hothers⟩ :=
      markUnless_ok hrow (by omega) .paused
    refine ⟨p.withRegistry r₁, ?_, fun k hne => ⟨hothers k hne, rfl⟩,
      ⟨fun h => ?_, fun _ => ⟨row₁, hrow₁, hstatus, hdesired.trans (classify_keepPaused hclass)⟩,
        fun h => ?_, fun _ a record hjob => ?_⟩, fun hno => (by cases hno), rfl, rfl, fun _ => rfl⟩
    · simp only [recoverJob, hclass, hmark]
    · rw [hclass] at h
      cases h
    · rw [hclass] at h
      cases h
    · show r₁.attempts[a]? = some record ↔ _
      rw [hattempts]
      exact hsame.attempts a record hjob
  · refine ⟨p, ?_, fun k _ => .refl p k, ⟨fun h => ?_, fun h => ?_, fun _ => hrow,
      fun _ a record hjob => hsame.attempts a record hjob⟩, fun hno => (by cases hno), rfl, rfl,
      fun _ => rfl⟩
    · simp only [recoverJob, hclass]
    · rw [hclass] at h
      cases h
    · rw [hclass] at h
      cases h

/-- The jobs that the pass has still to reach are as a previous process left
them, in the registry `r`. -/
structure Pending (key : ℕ) (r : Registry) (jobs : List (ℕ × JobRecord)) (p : RecoveryPass) :
    Prop where
  fresh : ∀ a ∈ r.attempts, a.launchKey ≠ key
  nodup : (jobs.map Prod.fst).Nodup
  listed : ∀ e ∈ jobs, Listed r e.1 e.2
  same : ∀ e ∈ jobs, r.Same p.actor.registry e.1
  handed : ∀ e ∈ jobs, ∀ e' ∈ p.handed, e'.1 ≠ e.1

variable {r : Registry} {jobs : List (ℕ × JobRecord)} {refusals : ℕ → Option AppError} {n : ℕ}

/-- The pass reaches the next job. -/
theorem Pending.next {row : JobRecord} (h : Pending key r ((job, row) :: jobs) p)
    (refusal : Option AppError) :
    ∃ p', p.recoverJob key job row refusal = (none, p') ∧ Pending key r jobs p' ∧
      (∀ k ≠ job, Passes p p' k) ∧
      Settled key r (p.actor.full = false ∧ refusal = none) p' job row ∧
      (Actor.classify row = .resume → ∃ attempt,
        Resumed key p'.actor.registry job attempt (fateOf p.actor.full refusal)) ∧
      Admitted p.actor p'.actor
        (if Actor.classify row = .resume then fateOf p.actor.full refusal else .queued) := by
  obtain ⟨hnot, hnodup⟩ := List.nodup_cons.mp h.nodup
  have hne : ∀ e ∈ jobs, e.1 ≠ job := by
    intro e he heq
    have hmem : e.1 ∈ jobs.map Prod.fst := List.mem_map_of_mem he
    exact hnot (heq ▸ hmem)
  obtain ⟨p', heq, hpass, hrest⟩ := recoverJob_spec (h.listed _ List.mem_cons_self) h.fresh
    (h.same _ List.mem_cons_self) (h.handed _ List.mem_cons_self) refusal
  refine ⟨p', heq, ⟨h.fresh, hnodup, fun e he => h.listed e (List.mem_cons_of_mem _ he),
    fun e he => (h.same e (List.mem_cons_of_mem _ he)).trans (hpass e.1 (hne e he)).same,
    fun e he e' he' hid => ?_⟩, hpass, hrest⟩
  -- what was handed over by now is of other jobs
  have hmem : e' ∈ p.handed.filter (·.1 = e.1) := by
    rw [← (hpass e.1 (hne e he)).handed]
    exact List.mem_filter.mpr ⟨he', by simpa using hid⟩
  exact h.handed e (List.mem_cons_of_mem _ he) e' (List.mem_filter.mp hmem).1 hid

/-- **The pass.**  It ends without an error, leaves every job that it did not
list alone, and settles every job that it did. -/
theorem Pending.recoverLoop {busy : Prop} (h : Pending key r jobs p)
    (refusals : ℕ → Option AppError) (n : ℕ)
    (hbusy : ∀ i e, jobs[i]? = some e → Actor.classify e.2 = .resume → refusals (n + i) = none →
      p.actor.maxActive ≠ 0 → busy) :
    ∃ p', RecoveryPass.recoverLoop key refusals n jobs p = (none, p') ∧
      (∀ k, k ∉ jobs.map Prod.fst → Passes p p' k) ∧
      ∀ e ∈ jobs, Settled key r busy p' e.1 e.2 := by
  induction jobs generalizing n p with
  | nil => exact ⟨p, rfl, fun k _ => .refl p k, fun _ he => by cases he⟩
  | cons e rest ih =>
    obtain ⟨job, row⟩ := e
    obtain ⟨p₁, heq, h₁, hpass, hsettled, -, hadmitted⟩ := h.next (refusals n)
    have hbusy₁ : ∀ i e', rest[i]? = some e' → Actor.classify e'.2 = .resume →
        refusals (n + 1 + i) = none → p₁.actor.maxActive ≠ 0 → busy := by
      intro i e' he' hclass hnone hmax
      rw [hadmitted.maxActive] at hmax
      rw [Nat.add_assoc, Nat.add_comm 1 i] at hnone
      exact hbusy (i + 1) e' he' hclass hnone hmax
    obtain ⟨p', heq', hpass', hsettled'⟩ := ih h₁ (n + 1) hbusy₁
    refine ⟨p', ?_, fun k hk => ?_, fun e' he' => ?_⟩
    · simp only [RecoveryPass.recoverLoop, heq]
      exact heq'
    · rw [List.map_cons, List.mem_cons, not_or] at hk
      exact (hpass k hk.1).trans (hpass' k hk.2)
    · rcases List.mem_cons.mp he' with rfl | he'
      · have hnot := (List.nodup_cons.mp h.nodup).1
        refine (hsettled.imp fun hclass hlaunched => ?_).passes (hpass' job hnot)
        refine hbusy 0 _ rfl hclass hlaunched.2 fun hzero => ?_
        simp [Actor.full, hzero] at hlaunched
      · exact hsettled' e' he'

/-- With a slot open at the start, a job that is to be resumed and whose launch
is not refused, the pass launches a job. -/
theorem Pending.launches (h : Pending key r jobs p) (refusals : ℕ → Option AppError)
    (hrunning : p.actor.shuttingDown = false)
    (hactive : p.actor.active.length = 0) (hmax : p.actor.maxActive ≠ 0)
    (hfree : ∃ i e, jobs[i]? = some e ∧ Actor.classify e.2 = .resume ∧ refusals (n + i) = none) :
    ∃ e ∈ jobs, ∃ attempt,
      Resumed key (RecoveryPass.recoverLoop key refusals n jobs p).2.actor.registry e.1 attempt
        .launched := by
  induction jobs generalizing n p with
  | nil =>
    obtain ⟨i, e, he, -⟩ := hfree
    cases he
  | cons e rest ih =>
    obtain ⟨job, row⟩ := e
    obtain ⟨p₁, heq, h₁, hpass, -, hresumed, hadmitted⟩ := h.next (refusals n)
    have hfull : p.actor.full = false := by
      simp only [Actor.full, hrunning, hactive, Bool.false_or, decide_eq_false_iff_not]
      omega
    have hloop : RecoveryPass.recoverLoop key refusals n ((job, row) :: rest) p =
        RecoveryPass.recoverLoop key refusals (n + 1) rest p₁ := by
      simp only [RecoveryPass.recoverLoop, heq]
    rw [hloop]
    by_cases hhead : Actor.classify row = .resume ∧ refusals n = none
    · -- this job is launched, and the rest of the pass leaves it alone
      obtain ⟨attempt, hlaunched⟩ := hresumed hhead.1
      rw [hfull, hhead.2] at hlaunched
      obtain ⟨p', heq', hpass', -⟩ := h₁.recoverLoop refusals (n + 1) fun _ _ _ _ _ _ => trivial
      refine ⟨(job, row), List.mem_cons_self, attempt, ?_⟩
      rw [heq']
      exact hlaunched.same (hpass' job (List.nodup_cons.mp h.nodup).1).same
    · have hidle : (if Actor.classify row = .resume then fateOf p.actor.full (refusals n)
          else .queued) ≠ .launched := by
        split_ifs with hclass
        · intro hfate
          exact hhead ⟨hclass, (fateOf_launched hfate).2⟩
        · intro hno
          cases hno
      obtain ⟨i, e, he, hclass, hnone⟩ := hfree
      rcases i with _ | i
      · cases he
        exact absurd ⟨hclass, hnone⟩ hhead
      · obtain ⟨e', he', hlaunched⟩ := ih (n := n + 1) h₁ (hadmitted.shuttingDown.trans hrunning)
          (by rw [hadmitted.active hidle]; exact hactive) (hadmitted.maxActive ▸ hmax)
          ⟨i, e, he, hclass, by rw [← hnone]; congr 1; omega⟩
        exact ⟨e', List.mem_cons_of_mem _ he', hlaunched⟩

/-! ### The pass again -/

/-- The record after another pass: a job that is wanted to run is marked again
unless it is still waiting. -/
def again (row : JobRecord) : JobRecord :=
  if Actor.classify row = .resume ∧ row.status ≠ .recovering then
    Registry.withStatus row .recovering
  else row

/-- A job that an earlier pass of this process has been at. -/
structure Recovered (key : ℕ) (r : Registry) (job : ℕ) (row : JobRecord) : Prop where
  found : r.jobs.get? job = some row
  resumed : Actor.classify row = .resume → (r.attemptByLaunchKey job key).isSome = true
  room : Actor.classify row = .resume → row.status ≠ .recovering →
    row.controlVersion < maxControlVersion
  paused : Actor.classify row = .keepPaused → row.status = .paused

theorem attemptByLaunchKey_congr {r r' : Registry} (h : r'.attempts = r.attempts) (job key : ℕ) :
    r'.attemptByLaunchKey job key = r.attemptByLaunchKey job key := by
  unfold Registry.attemptByLaunchKey
  rw [h]

/-- The job is marked again or left alone, and not handed over. -/
theorem Recovered.recoverJob {row : JobRecord} (h : Recovered key p.actor.registry job row)
    (refusal : Option AppError) :
    ∃ r', p.recoverJob key job row refusal = (none, p.withRegistry r') ∧
      r'.attempts = p.actor.registry.attempts ∧ r'.jobs.get? job = some (again row) ∧
      ∀ k ≠ job, r'.jobs.get? k = p.actor.registry.jobs.get? k := by
  rcases hclass : Actor.classify row with _ | _ | _
  · -- the attempt of this process is there, so nothing is created
    have hhand : ∀ r', r'.attempts = p.actor.registry.attempts → r'.jobs.get? job = some (again row) →
        (p.withRegistry r').handOver key job refusal = (none, p.withRegistry r') := by
      intro r' hattempts hrow'
      obtain ⟨existing, hkey⟩ := Option.isSome_iff_exists.mp (h.resumed hclass)
      have hkey' : r'.attemptByLaunchKey job key = some existing :=
        (attemptByLaunchKey_congr hattempts job key).trans hkey
      have hbegin : r'.beginRecoveryAttemptOnce job key = .ok ((existing, false), r') := by
        simp only [Registry.beginRecoveryAttemptOnce, hrow', hkey']
      simp only [handOver, withRegistry, hbegin]
      rfl
    by_cases hstatus : row.status = .recovering
    · have hrow : p.actor.registry.jobs.get? job = some (again row) := by
        rw [h.found, again, if_neg (fun hand => hand.2 hstatus)]
      refine ⟨p.actor.registry, ?_, rfl, hrow, fun _ _ => rfl⟩
      simp only [RecoveryPass.recoverJob, hclass, markUnless, if_pos hstatus]
      exact hhand _ rfl hrow
    · have hmark := Registry.markStatus_ok h.found (h.room hclass hstatus) .recovering
      have hrow : (p.actor.registry.putJob job (Registry.withStatus row .recovering)).jobs.get? job =
          some (again row) := by
        rw [again, if_pos ⟨hclass, hstatus⟩]
        exact SortedMap.get?_insert_self ..
      refine ⟨p.actor.registry.putJob job (Registry.withStatus row .recovering), ?_, rfl, hrow,
        fun k hne => SortedMap.get?_insert_of_ne _ _ hne⟩
      simp only [RecoveryPass.recoverJob, hclass, markUnless, if_neg hstatus, hmark]
      exact hhand _ rfl hrow
  · refine ⟨p.actor.registry, ?_, rfl, ?_, fun _ _ => rfl⟩
    · simp only [RecoveryPass.recoverJob, hclass, markUnless, if_pos (h.paused hclass)]
    · rw [h.found, again, if_neg (fun hand => by rw [hclass] at hand; cases hand.1)]
  · refine ⟨p.actor.registry, ?_, rfl, ?_, fun _ _ => rfl⟩
    · simp only [RecoveryPass.recoverJob, hclass]
      rfl
    · rw [h.found, again, if_neg (fun hand => by rw [hclass] at hand; cases hand.1)]

/-- **A second pass does nothing but mark the jobs again.** -/
theorem recoverLoop_again (hnodup : (jobs.map Prod.fst).Nodup)
    (hjobs : ∀ e ∈ jobs, Recovered key p.actor.registry e.1 e.2) (refusals : ℕ → Option AppError)
    (n : ℕ) :
    ∃ r', recoverLoop key refusals n jobs p = (none, p.withRegistry r') ∧
      r'.attempts = p.actor.registry.attempts ∧
      (∀ e ∈ jobs, r'.jobs.get? e.1 = some (again e.2)) ∧
      ∀ k, k ∉ jobs.map Prod.fst → r'.jobs.get? k = p.actor.registry.jobs.get? k := by
  induction jobs generalizing n p with
  | nil => exact ⟨p.actor.registry, rfl, rfl, fun _ he => (by cases he), fun _ _ => rfl⟩
  | cons e rest ih =>
    obtain ⟨job, row⟩ := e
    obtain ⟨hnot, hnodup⟩ := List.nodup_cons.mp hnodup
    obtain ⟨r₁, heq, hattempts, hrow, hothers⟩ :=
      (hjobs _ List.mem_cons_self).recoverJob (refusals n)
    have hjobs₁ : ∀ e ∈ rest, Recovered key (p.withRegistry r₁).actor.registry e.1 e.2 := by
      intro e he
      have hmem : e.1 ∈ rest.map Prod.fst := List.mem_map_of_mem he
      have hne : e.1 ≠ job := fun heq => hnot (heq ▸ hmem)
      obtain ⟨hfound, hresumed, hroom, hpaused⟩ := hjobs e (List.mem_cons_of_mem _ he)
      refine ⟨(hothers e.1 hne).trans hfound, fun hclass => ?_, hroom, hpaused⟩
      exact (congrArg Option.isSome (attemptByLaunchKey_congr hattempts e.1 key)).trans
        (hresumed hclass)
    obtain ⟨r', heq', hattempts', hrows', hothers'⟩ := ih hnodup hjobs₁ (n + 1)
    refine ⟨r', ?_, hattempts'.trans hattempts, fun e he => ?_, fun k hk => ?_⟩
    · simp only [recoverLoop, heq]
      exact heq'
    · rcases List.mem_cons.mp he with rfl | he
      · exact (hothers' job hnot).trans hrow
      · exact hrows' e he
    · rw [List.map_cons, List.mem_cons, not_or] at hk
      exact (hothers' k hk.2).trans (hothers k hk.1)

end RecoveryPass

/-! ### The whole pass -/

/-- At most one attempt of the job is unfinished. -/
def Registry.SoleUnfinished (r : Registry) (job : ℕ) : Prop :=
  ∀ (a b : ℕ) (x y : AttemptRecord), r.attempts[a]? = some x → r.attempts[b]? = some y →
    x.jobId = job → y.jobId = job → x.outcome = none → y.outcome = none → a = b

theorem Registry.soleUnfinished_congr {r r' : Registry} {job : ℕ}
    (h : ∀ (a : ℕ) (record : AttemptRecord), record.jobId = job →
      (r'.attempts[a]? = some record ↔ r.attempts[a]? = some record)) :
    r'.SoleUnfinished job ↔ r.SoleUnfinished job := by
  constructor
  · intro hsole a b x y ha hb hx hy
    exact hsole a b x y ((h a x hx).mpr ha) ((h b y hy).mpr hb) hx hy
  · intro hsole a b x y ha hb hx hy
    exact hsole a b x y ((h a x hx).mp ha) ((h b y hy).mp hb) hx hy

theorem Resumed.soleUnfinished {key job attempt : ℕ} {fate : Fate} {r : Registry}
    (h : Resumed key r job attempt fate) : r.SoleUnfinished job := by
  have hone : ∀ (a : ℕ) (x : AttemptRecord), r.attempts[a]? = some x → x.jobId = job →
      x.outcome = none → a = attempt := by
    intro a x ha hx hopen
    by_contra hne
    have hfin := h.others a x ha hx hne
    rw [hopen] at hfin
    cases hfin
  intro a b x y ha hb hx hy hxo hyo
  exact (hone a x ha hx hxo).trans (hone b y hb hy hyo).symm

namespace RecoveryPass

variable {key : ℕ} {s : Actor} {refusals : ℕ → Option AppError} {p : RecoveryPass}

/-- Nothing is launched: there are no slots, or every launch is refused. -/
def Idle (s : Actor) (refusals : ℕ → Option AppError) : Prop :=
  s.maxActive = 0 ∨ ∀ i job row, s.registry.listRecoverable[i]? = some (job, row) →
    row.desiredState = .running → refusals i ≠ none

theorem mem_listRecoverable {r : Registry} {job : ℕ} {row : JobRecord} :
    (job, row) ∈ r.listRecoverable ↔ r.jobs.get? job = some row ∧ row.status.isTerminal = false := by
  unfold Registry.listRecoverable
  rw [List.mem_filter, SortedMap.mem_entries]
  simp

theorem nodup_listRecoverable (r : Registry) : (r.listRecoverable.map Prod.fst).Nodup :=
  r.jobs.nodup_keys.sublist (List.filter_sublist.map Prod.fst)

theorem classify_of_open {row : JobRecord} (h : row.status.isTerminal = false) :
    (Actor.classify row = .resume ↔ row.desiredState = .running) ∧
    (Actor.classify row = .keepPaused ↔ row.desiredState = .paused) ∧
    (Actor.classify row = .keepTerminal ↔ row.desiredState = .cancelled) := by
  obtain ⟨desired, status, version, attempt⟩ := row
  cases desired <;> cases status <;> simp_all [Actor.classify, DurableJobStatus.isTerminal]

/-- What a pass found and left of a job. -/
def Outcome (key : ℕ) (s : Actor) (refusals : ℕ → Option AppError) (p : RecoveryPass) (job : ℕ)
    (row : JobRecord) : Prop :=
  (row.status.isTerminal = true ∧ s.registry.Same p.actor.registry job) ∨
  (row.status.isTerminal = false ∧ Settled key s.registry (¬ Idle s refusals) p job row)

/-- The pass from any registry whose versions have room. -/
theorem outcomes (hfresh : ∀ a ∈ s.registry.attempts, a.launchKey ≠ key)
    (hroom : ∀ job row, s.registry.jobs.get? job = some row → row.status.isTerminal = false →
      row.controlVersion + 2 < maxControlVersion) (refusals : ℕ → Option AppError) :
    Pending key s.registry s.registry.listRecoverable ⟨s, []⟩ ∧
    ∃ p, recoverStartup key s refusals = (none, p) ∧
      (∀ job row, s.registry.jobs.get? job = some row → Outcome key s refusals p job row) ∧
      ∀ job row', p.actor.registry.jobs.get? job = some row' →
        ∃ row, s.registry.jobs.get? job = some row := by
  have hpending : Pending key s.registry s.registry.listRecoverable ⟨s, []⟩ := by
    refine ⟨hfresh, nodup_listRecoverable _, fun e he => ?_, fun e _ => .refl .., fun _ _ _ he => ?_⟩
    · obtain ⟨hrow, hopen⟩ := mem_listRecoverable.mp he
      exact ⟨hrow, hopen, hroom e.1 e.2 hrow hopen⟩
    · cases he
  refine ⟨hpending, ?_⟩
  have hbusy : ∀ i e, s.registry.listRecoverable[i]? = some e → Actor.classify e.2 = .resume →
      refusals (0 + i) = none → s.maxActive ≠ 0 → ¬ Idle s refusals := by
    rintro i ⟨job, row⟩ he hclass hnone hmax (hzero | hrefused)
    · exact hmax hzero
    · rw [Nat.zero_add] at hnone
      exact hrefused i job row he (classify_resume hclass) hnone
  obtain ⟨p, heq, hpass, hsettled⟩ := hpending.recoverLoop refusals 0 hbusy
  -- a job that is not listed is terminal or unknown
  have hsame : ∀ job, (∀ row, s.registry.jobs.get? job = some row → row.status.isTerminal = true) →
      s.registry.Same p.actor.registry job := by
    intro job hterm
    refine (hpass job fun hmem => ?_).same
    obtain ⟨⟨job', row⟩, he, rfl⟩ := List.mem_map.mp hmem
    obtain ⟨hrow, hopen⟩ := mem_listRecoverable.mp he
    rw [hterm row hrow] at hopen
    cases hopen
  refine ⟨p, heq, fun job row hrow => ?_, fun job row' hrow' => ?_⟩
  · rcases hopen : row.status.isTerminal with _ | _
    · exact .inr ⟨hopen, hsettled (job, row) (mem_listRecoverable.mpr ⟨hrow, hopen⟩)⟩
    · refine .inl ⟨hopen, hsame job fun row' hrow' => ?_⟩
      rw [hrow] at hrow'
      cases hrow'
      exact hopen
  · rcases hrow : s.registry.jobs.get? job with _ | row
    · have h := (hsame job fun row hrow'' => by rw [hrow] at hrow''; cases hrow'').row
      rw [hrow', hrow] at h
      cases h
    · exact ⟨row, rfl⟩

/-- A job of the first registry, told from the record it was left with. -/
theorem Outcome.cases {job : ℕ} {row row' : JobRecord} (h : Outcome key s refusals p job row)
    (hrow : s.registry.jobs.get? job = some row)
    (hrow' : p.actor.registry.jobs.get? job = some row') :
    (row.desiredState = .running ∧ row.status.isTerminal = false ∧ ∃ attempt fate,
      Resumed key p.actor.registry job attempt fate ∧ row'.desiredState = .running ∧
      row'.status = fate.status ∧ (fate = .launched → row'.controlVersion < maxControlVersion) ∧
      p.handed.filter (·.1 = job) = [(job, attempt)] ∧ (fate = .launched → ¬ Idle s refusals)) ∨
    (¬ (row.desiredState = .running ∧ row.status.isTerminal = false) ∧
      (∀ (a : ℕ) (record : AttemptRecord), record.jobId = job →
        (p.actor.registry.attempts[a]? = some record ↔ s.registry.attempts[a]? = some record)) ∧
      (row' = row ∧ (row.status.isTerminal = true ∨ row.desiredState = .cancelled) ∨
        row.status.isTerminal = false ∧ row'.status = .paused ∧ row'.desiredState = .paused ∧
          row.desiredState = .paused)) := by
  rcases h with ⟨hterm, hsame⟩ | ⟨hopen, hsettled⟩
  · refine .inr ⟨fun hand => ?_, hsame.attempts, .inl ⟨?_, .inl hterm⟩⟩
    · rw [hterm] at hand
      cases hand.2
    · exact Option.some.inj (hrow'.symm.trans (hsame.row.trans hrow))
  obtain ⟨hresume, hpaused, hkept⟩ := classify_of_open hopen
  rcases hdesired : row.desiredState with _ | _ | _
  · obtain ⟨attempt, fate, hresumed, hhanded, hbusy⟩ := hsettled.resumed (hresume.mpr hdesired)
    obtain ⟨row'', hrow'', hdes, hstatus, hroom⟩ := hresumed.row
    cases hrow'.symm.trans hrow''
    exact .inl ⟨rfl, hopen, attempt, fate, hresumed, hdes, hstatus, hroom, hhanded, hbusy⟩
  · have hclass := hpaused.mpr hdesired
    obtain ⟨row'', hrow'', hstatus, hdes⟩ := hsettled.paused hclass
    cases hrow'.symm.trans hrow''
    exact .inr ⟨fun hand => (by cases hand.1),
      hsettled.attempts (by rw [hclass]; intro hno; cases hno), .inr ⟨hopen, hstatus, hdes, rfl⟩⟩
  · have hclass := hkept.mpr hdesired
    cases hrow'.symm.trans (hsettled.kept hclass)
    exact .inr ⟨fun hand => (by cases hand.1),
      hsettled.attempts (by rw [hclass]; intro hno; cases hno), .inl ⟨rfl, .inr rfl⟩⟩

theorem Outcome.exists_row {job : ℕ} {row : JobRecord} (h : Outcome key s refusals p job row)
    (hrow : s.registry.jobs.get? job = some row) :
    ∃ row', p.actor.registry.jobs.get? job = some row' := by
  rcases h with ⟨-, hsame⟩ | ⟨hopen, hsettled⟩
  · exact ⟨row, hsame.row.trans hrow⟩
  obtain ⟨hresume, hpaused, hkept⟩ := classify_of_open hopen
  rcases hdesired : row.desiredState with _ | _ | _
  · obtain ⟨attempt, fate, hresumed, -⟩ := hsettled.resumed (hresume.mpr hdesired)
    obtain ⟨row', hrow', -⟩ := hresumed.row
    exact ⟨row', hrow'⟩
  · obtain ⟨row', hrow', -⟩ := hsettled.paused (hpaused.mpr hdesired)
    exact ⟨row', hrow'⟩
  · exact ⟨row, hsettled.kept (hkept.mpr hdesired)⟩

variable (houtcome : ∀ job row, s.registry.jobs.get? job = some row →
    Outcome key s refusals p job row)
  (hback : ∀ job row', p.actor.registry.jobs.get? job = some row' →
    ∃ row, s.registry.jobs.get? job = some row)

include houtcome hback

/-- Cancelled jobs are left as they are. -/
theorem no_open_cancelled_iff :
    (∀ job row, p.actor.registry.jobs.get? job = some row → row.desiredState = .cancelled →
      row.status.isTerminal = true) ↔
    ∀ job row, s.registry.jobs.get? job = some row → row.desiredState = .cancelled →
      row.status.isTerminal = true := by
  constructor
  · intro h job row hrow hcancelled
    obtain ⟨row', hrow'⟩ := (houtcome job row hrow).exists_row hrow
    rcases (houtcome job row hrow).cases hrow hrow' with
      ⟨hrunning, -⟩ | ⟨-, -, ⟨rfl, -⟩ | ⟨-, -, -, hpaused⟩⟩
    · rw [hcancelled] at hrunning
      cases hrunning
    · exact h job row' hrow' hcancelled
    · rw [hcancelled] at hpaused
      cases hpaused
  · intro h job row' hrow' hcancelled
    obtain ⟨row, hrow⟩ := hback job row' hrow'
    rcases (houtcome job row hrow).cases hrow hrow' with
      ⟨-, -, attempt, fate, -, hrunning, -⟩ | ⟨-, -, ⟨rfl, -⟩ | ⟨-, -, hpaused, -⟩⟩
    · rw [hcancelled] at hrunning
      cases hrunning
    · exact h job row' hrow hcancelled
    · rw [hcancelled] at hpaused
      cases hpaused

/-- Every job that is still wanted to run was handed over once. -/
theorem handed_once {job : ℕ} {row' : JobRecord}
    (hrow' : p.actor.registry.jobs.get? job = some row') (hrunning : row'.desiredState = .running)
    (hopen : row'.status.isTerminal = false) :
    ∃ attempt, p.handed.filter (·.1 = job) = [(job, attempt)] ∧
      p.actor.registry.attempts[attempt]? = some ⟨job, key, .recovery, none⟩ := by
  obtain ⟨row, hrow⟩ := hback job row' hrow'
  rcases (houtcome job row hrow).cases hrow hrow' with
    ⟨-, -, attempt, fate, hresumed, -, hstatus, -, hhanded, -⟩ |
    ⟨hnot, -, ⟨rfl, -⟩ | ⟨-, -, hpaused, -⟩⟩
  · refine ⟨attempt, hhanded, ?_⟩
    obtain ⟨outcome, hat, houtcome⟩ := hresumed.begun
    have hnone : outcome = none := by
      refine houtcome.mpr fun hfailed => ?_
      rw [hstatus, hfailed] at hopen
      cases hopen
    rw [hnone] at hat
    exact hat
  · exact absurd ⟨hrunning, hopen⟩ hnot
  · rw [hrunning] at hpaused
    cases hpaused

/-- The attempts of a job that is not resumed are left as they are. -/
theorem soleUnfinished_iff :
    (∀ job row, p.actor.registry.jobs.get? job = some row →
      p.actor.registry.SoleUnfinished job) ↔
    ∀ job row, s.registry.jobs.get? job = some row →
      ¬ (row.desiredState = .running ∧ row.status.isTerminal = false) →
      s.registry.SoleUnfinished job := by
  constructor
  · intro h job row hrow hnot
    obtain ⟨row', hrow'⟩ := (houtcome job row hrow).exists_row hrow
    rcases (houtcome job row hrow).cases hrow hrow' with ⟨hrunning, hopen, -⟩ | ⟨-, hattempts, -⟩
    · exact absurd ⟨hrunning, hopen⟩ hnot
    · exact (Registry.soleUnfinished_congr hattempts).mp (h job row' hrow')
  · intro h job row' hrow'
    obtain ⟨row, hrow⟩ := hback job row' hrow'
    rcases (houtcome job row hrow).cases hrow hrow' with
      ⟨-, -, attempt, fate, hresumed, -⟩ | ⟨hnot, hattempts, -⟩
    · exact hresumed.soleUnfinished
    · exact (Registry.soleUnfinished_congr hattempts).mpr (h job row hrow hnot)

/-- The jobs another pass of this process lists. -/
theorem recovered_of_outcome {job : ℕ} {row' : JobRecord}
    (hlisted : (job, row') ∈ p.actor.registry.listRecoverable) :
    Recovered key p.actor.registry job row' := by
  obtain ⟨hrow', hopen'⟩ := mem_listRecoverable.mp hlisted
  obtain ⟨hresume, hpaused, -⟩ := classify_of_open hopen'
  obtain ⟨row, hrow⟩ := hback job row' hrow'
  rcases (houtcome job row hrow).cases hrow hrow' with
    ⟨-, -, attempt, fate, hresumed, hrunning, hstatus, hroom, -⟩ | ⟨hnot, -, hkept⟩
  · refine ⟨hrow', fun _ => ?_, fun _ hne => ?_, fun hclass => ?_⟩
    · obtain ⟨outcome, hat, -⟩ := hresumed.begun
      rw [Registry.attemptByLaunchKey, List.findIdx?_isSome, List.any_eq_true]
      exact ⟨_, List.mem_of_getElem? hat, by simp⟩
    · cases fate with
      | queued => exact absurd hstatus hne
      | launched => exact hroom rfl
      | failed =>
        rw [hstatus] at hopen'
        cases hopen'
    · have hpaused' := hpaused.mp hclass
      rw [hrunning] at hpaused'
      cases hpaused'
  · have hnotresume : Actor.classify row' ≠ .resume := by
      intro hclass
      have hrunning := hresume.mp hclass
      rcases hkept with ⟨rfl, -⟩ | ⟨-, -, hpaused', -⟩
      · exact hnot ⟨hrunning, hopen'⟩
      · rw [hrunning] at hpaused'
        cases hpaused'
    refine ⟨hrow', fun hclass => absurd hclass hnotresume, fun hclass => absurd hclass hnotresume,
      fun hclass => ?_⟩
    have hpaused' := hpaused.mp hclass
    rcases hkept with ⟨rfl, hterm | hcancelled⟩ | ⟨-, hstatus, -, -⟩
    · rw [hterm] at hopen'
      cases hopen'
    · rw [hcancelled] at hpaused'
      cases hpaused'
    · exact hstatus

/-- Another pass marks the jobs that were launched, and nothing else. -/
theorem again_eq {job : ℕ} {row' : JobRecord} (hidle : Idle s refusals)
    (hlisted : (job, row') ∈ p.actor.registry.listRecoverable) : again row' = row' := by
  obtain ⟨hrow', hopen'⟩ := mem_listRecoverable.mp hlisted
  obtain ⟨row, hrow⟩ := hback job row' hrow'
  refine if_neg fun hmarked => ?_
  have hrunning := (classify_of_open hopen').1.mp hmarked.1
  rcases (houtcome job row hrow).cases hrow hrow' with
    ⟨-, -, attempt, fate, -, -, hstatus, -, -, hbusy⟩ | ⟨hnot, -, ⟨rfl, -⟩ | ⟨-, -, hpaused, -⟩⟩
  · cases fate with
    | queued => exact hmarked.2 hstatus
    | launched => exact hbusy rfl hidle
    | failed =>
      rw [hstatus] at hopen'
      cases hopen'
  · exact hnot ⟨hrunning, hopen'⟩
  · rw [hrunning] at hpaused
    cases hpaused

end RecoveryPass

/-- **Startup recovery.**  From any registry that carries no attempt of this
process yet and whose versions have room, the pass ends without an error.  Then
no job is cancelled and not terminal iff there was none before.  Every job that
is wanted to run and not terminal was handed over exactly once, under one
unfinished recovery attempt.  Each job has at most one unfinished attempt iff
every job that was not resumed had.  And another pass changes no record and
hands nothing over iff the first launched nothing. -/
theorem startup_recovery (key : ℕ) (s : Actor) (refusals refusals' : ℕ → Option AppError)
    (hstart : s.Starts) (hfresh : ∀ a ∈ s.registry.attempts, a.launchKey ≠ key)
    (hroom : ∀ job row, s.registry.jobs.get? job = some row → row.status.isTerminal = false →
      row.controlVersion + 2 < maxControlVersion) :
    ∃ p p', recoverStartup key s refusals = (none, p) ∧
      recoverStartup key p.actor refusals' = (none, p') ∧
      ((∀ job row, p.actor.registry.jobs.get? job = some row → row.desiredState = .cancelled →
          row.status.isTerminal = true) ↔
        ∀ job row, s.registry.jobs.get? job = some row → row.desiredState = .cancelled →
          row.status.isTerminal = true) ∧
      (∀ job row, p.actor.registry.jobs.get? job = some row → row.desiredState = .running →
        row.status.isTerminal = false → ∃ attempt,
          p.handed.filter (·.1 = job) = [(job, attempt)] ∧
          p.actor.registry.attempts[attempt]? = some ⟨job, key, .recovery, none⟩) ∧
      ((∀ job row, p.actor.registry.jobs.get? job = some row →
          p.actor.registry.SoleUnfinished job) ↔
        ∀ job row, s.registry.jobs.get? job = some row →
          ¬ (row.desiredState = .running ∧ row.status.isTerminal = false) →
          s.registry.SoleUnfinished job) ∧
      (p'.actor.registry = p.actor.registry ∧ p'.handed = [] ↔ RecoveryPass.Idle s refusals) := by
  obtain ⟨hpending, p, heq, houtcome, hback⟩ := RecoveryPass.outcomes hfresh hroom refusals
  obtain ⟨r', heq', hattempts, hrows, hothers⟩ := RecoveryPass.recoverLoop_again
    (p := ⟨p.actor, []⟩) (RecoveryPass.nodup_listRecoverable p.actor.registry)
    (fun e he => RecoveryPass.recovered_of_outcome houtcome hback he) refusals' 0
  refine ⟨p, _, heq, heq', RecoveryPass.no_open_cancelled_iff houtcome hback,
    fun job row hrow hrunning hopen =>
      RecoveryPass.handed_once houtcome hback hrow hrunning hopen,
    RecoveryPass.soleUnfinished_iff houtcome hback, ?_, ?_⟩
  · rintro ⟨hsame, -⟩
    by_contra hbusy
    -- a job was launched, and the other pass marks it again
    obtain ⟨hmax, hfree⟩ := not_or.mp hbusy
    push Not at hfree
    obtain ⟨i, job, row, hlisted, hrunning, hnone⟩ := hfree
    have hopen := (RecoveryPass.mem_listRecoverable.mp (List.mem_of_getElem? hlisted)).2
    obtain ⟨e, -, attempt, hlaunched⟩ := hpending.launches (n := 0) refusals
      hstart.running (by rw [hstart.active]; rfl) hmax
      ⟨i, (job, row), hlisted, (RecoveryPass.classify_of_open hopen).1.mpr hrunning,
        by rw [Nat.zero_add]; exact hnone⟩
    have hfirst : RecoveryPass.recoverLoop key refusals 0 s.registry.listRecoverable ⟨s, []⟩ =
      (none, p) := heq
    rw [hfirst] at hlaunched
    obtain ⟨row', hrow', hdesired, hstatus, -⟩ := hlaunched.row
    have hopen' : row'.status.isTerminal = false := by
      rw [hstatus]
      rfl
    have hagain := hrows _ (RecoveryPass.mem_listRecoverable.mpr ⟨hrow', hopen'⟩)
    have hclass := (RecoveryPass.classify_of_open hopen').1.mpr hdesired
    have hne : row'.status ≠ .recovering := by
      rw [hstatus]
      intro hno
      cases hno
    have hsame' : r' = p.actor.registry := hsame
    rw [hsame', hrow', RecoveryPass.again, if_pos ⟨hclass, hne⟩] at hagain
    have hversion := congrArg JobRecord.controlVersion (Option.some.inj hagain)
    exact absurd hversion (Nat.ne_of_lt (Nat.lt_succ_self _))
  · intro hidle
    refine ⟨?_, rfl⟩
    have hjobs : r'.jobs = p.actor.registry.jobs := by
      refine SortedMap.ext_get? fun k => ?_
      by_cases hk : k ∈ p.actor.registry.listRecoverable.map Prod.fst
      · obtain ⟨⟨job, row⟩, he, rfl⟩ := List.mem_map.mp hk
        rw [hrows _ he, RecoveryPass.again_eq houtcome hback hidle he,
          (RecoveryPass.mem_listRecoverable.mp he).1]
      · exact hothers k hk
    show r' = p.actor.registry
    rcases r' with ⟨jobs, attempts⟩
    cases hjobs
    cases hattempts
    rfl

/-- A new process finds the registry. -/
def Actor.restart (r : Registry) (maxActive : ℕ) : Actor :=
  { Actor.fresh maxActive with registry := r }

theorem Actor.starts_restart {r : Registry} (hwf : r.WellFormed) (maxActive : ℕ) :
    (Actor.restart r maxActive).Starts :=
  ⟨hwf, rfl, rfl, rfl, rfl, rfl, rfl, rfl, rfl⟩

/-- A job that was running under its first attempt, and one that was paused
while it ran. -/
def leftBehind : Registry where
  jobs := (SortedMap.empty.insert 0 ⟨.running, .active, 2, some 0⟩).insert 1
    ⟨.paused, .active, 3, none⟩
  attempts := [⟨0, 1, .initial, none⟩]

theorem leftBehind_rows {job : ℕ} {row : JobRecord} (h : leftBehind.jobs.get? job = some row) :
    job = 0 ∧ row = ⟨.running, .active, 2, some 0⟩ ∨ job = 1 ∧ row = ⟨.paused, .active, 3, none⟩ := by
  have hmem : (job, row) ∈ [(0, (⟨.running, .active, 2, some 0⟩ : JobRecord)),
      (1, ⟨.paused, .active, 3, none⟩)] := SortedMap.mem_entries.mpr h
  simpa using hmem

theorem wellFormed_leftBehind : leftBehind.WellFormed := by
  intro job row attempt hrow hcurrent
  rcases leftBehind_rows hrow with ⟨rfl, rfl⟩ | ⟨rfl, rfl⟩
  · cases hcurrent
    rfl
  · cases hcurrent

/-- The running job is handed to the engine under a new attempt, and the paused
one is kept. -/
theorem startup_recovery_left_behind :
    ∃ p attempt, recoverStartup 9 (.restart leftBehind 1) (fun _ => none) = (none, p) ∧
      p.actor.registry.jobs.get? 0 = some ⟨.running, .active, 4, some 1⟩ ∧
      p.actor.registry.jobs.get? 1 = some ⟨.paused, .paused, 4, none⟩ ∧
      p.handed.filter (·.1 = 0) = [(0, attempt)] ∧
      p.actor.registry.attempts[attempt]? = some ⟨0, 9, .recovery, none⟩ := by
  obtain ⟨p, p', heq, -, -, hhanded, -⟩ := startup_recovery 9 (.restart leftBehind 1)
    (fun _ => none) (fun _ => none) (Actor.starts_restart wellFormed_leftBehind 1) (by decide)
    fun job row hrow _ => by
      rcases leftBehind_rows hrow with ⟨-, rfl⟩ | ⟨-, rfl⟩ <;> decide
  have hrows : ((recoverStartup 9 (.restart leftBehind 1) (fun _ => none)).2.actor.registry.jobs.get? 0,
      (recoverStartup 9 (.restart leftBehind 1) (fun _ => none)).2.actor.registry.jobs.get? 1) =
      (some ⟨.running, .active, 4, some 1⟩, some ⟨.paused, .paused, 4, none⟩) := by decide
  rw [heq] at hrows
  obtain ⟨hrow₀, hrow₁⟩ := Prod.mk.inj hrows
  obtain ⟨attempt, hone, hat⟩ := hhanded 0 _ hrow₀ rfl rfl
  exact ⟨p, attempt, heq, hrow₀, hrow₁, hone, hat⟩

/-- A job is cancelled while it runs, and the service shuts down before the run
has ended. -/
def cancelledAtShutdown : List SupervisorEvent :=
  [.insertJob 0, .enqueue 0 none, .cancel 0 2 none, .shutdown,
    .completed 0 0 .cancelled fun _ => none]

/-- The next process leaves the cancelled job active; and a job that it has
launched is marked again by another pass. -/
theorem recovery_incomplete_and_not_repeatable :
    (∃ s, Reach (supervisorStep 0) (fun _ _ => True) Actor.Starts s ∧
      (recoverStartup 9 (.restart s.registry 1) fun _ => none).2.actor.registry.jobs.get? 0 =
        some ⟨.cancelled, .active, 3, some 0⟩) ∧
    ∃ s, Reach (supervisorStep 0) (fun _ _ => True) Actor.Starts s ∧
      let p := (recoverStartup 9 (.restart s.registry 1) fun _ => none).2
      p.actor.registry.jobs.get? 0 = some ⟨.running, .active, 3, some 0⟩ ∧
      (recoverStartup 9 p.actor fun _ => none).2.actor.registry.jobs.get? 0 =
        some ⟨.running, .recovering, 4, some 0⟩ := by
  constructor
  · have hend : ((runEvents (supervisorStep 0) (.fresh 1) cancelledAtShutdown).map fun s =>
        (recoverStartup 9 (.restart s.registry 1) fun _ => none).2.actor.registry.jobs.get? 0) =
        some (some ⟨.cancelled, .active, 3, some 0⟩) := by decide
    obtain ⟨s, hrun, hs⟩ := Option.map_eq_some_iff.mp hend
    exact ⟨s, .of_run (.start (Actor.starts_fresh 1)) runOk_true hrun, hs⟩
  · have hend : ((runEvents (supervisorStep 0) (.fresh 1) [.insertJob 0]).map fun s =>
        let p := (recoverStartup 9 (.restart s.registry 1) fun _ => none).2
        (p.actor.registry.jobs.get? 0,
          (recoverStartup 9 p.actor fun _ => none).2.actor.registry.jobs.get? 0)) =
        some (some ⟨.running, .active, 3, some 0⟩, some ⟨.running, .recovering, 4, some 0⟩) := by
      decide
    obtain ⟨s, hrun, hs⟩ := Option.map_eq_some_iff.mp hend
    exact ⟨s, .of_run (.start (Actor.starts_fresh 1)) runOk_true hrun, Prod.mk.inj hs⟩

end KDown
