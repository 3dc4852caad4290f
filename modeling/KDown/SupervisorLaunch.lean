/-
KDown/SupervisorLaunch.lean

A launch whose registry may fail at any call (`launch_job` in
supervisor/mod.rs, with `begin_attempt_once`, `mark_status` and
`finish_attempt` of registry.rs).

A failed call has either written nothing or written all: its transaction was
rolled back, or it was committed and the answer or the reload after it was lost.
Without such failures this is the launch of KDown/Supervisor.lean
(`launch_faultless`).

The launch cleans up behind a refusal of the filename, the destination or the
engine, and nowhere else.  `LaunchRecovers` says which failures that covers.
-/
import KDown.Supervisor

namespace KDown

/-- A call of the registry fails. -/
inductive DbFault
  /-- Nothing was written. -/
  | before (e : AppError)
  /-- All was written. -/
  | after (e : AppError)
  deriving DecidableEq, Repr

/-- The fault comes before the write. -/
def DbFault.isBefore : DbFault → Bool
  | .before _ => true
  | .after _ => false

/-- A call of the registry: what it returns, and what it leaves. -/
def withFault {α : Type} (fault : Option DbFault) (r : Registry)
    (call : Except AppError (α × Registry)) : Except AppError α × Registry :=
  match fault, call with
  | some (.before e), _ => (.error e, r)
  | _, .error e => (.error e, r)
  | some (.after e), .ok (_, r') => (.error e, r')
  | none, .ok (a, r') => (.ok a, r')

/-- What a launch meets. -/
structure LaunchAnswers where
  /-- The job has a filename override. -/
  overridden : Bool
  attempt : Option DbFault
  mark : Option DbFault
  filename : Option AppError
  resolve : Option AppError
  directory : Option AppError
  engine : Option AppError
  finish : Option DbFault
  reload : Option DbFault

/-- The first refusal on the way to the engine, which refuses last. -/
def LaunchAnswers.refusal (answers : LaunchAnswers) : Option AppError :=
  if answers.overridden then answers.filename.or (answers.resolve.or answers.engine)
  else answers.resolve.or (answers.directory.or answers.engine)

/-- The actor, and the engine runs started so far. -/
structure LaunchSystem where
  actor : Actor
  running : List (ℕ × ℕ)

namespace LaunchSystem

variable (startupKey : ℕ)

/-- The registry of the actor. -/
def registry (s : LaunchSystem) : Registry := s.actor.registry

/-- The registry is replaced. -/
def withRegistry (s : LaunchSystem) (r : Registry) : LaunchSystem :=
  { s with actor := { s.actor with registry := r } }

/-- Finish the attempt as failed; whether that succeeds is not looked at. -/
def failLaunch (s : LaunchSystem) (attempt : ℕ) (e : AppError) (finish : Option DbFault) :
    Option AppError × LaunchSystem :=
  let call := s.registry.finishAttempt attempt (.failed e.code none)
  (some e, s.withRegistry (withFault finish s.registry (call.map fun r => ((), r))).2)

/-- Register the run the engine has started, with the record read again. -/
def trackLaunch (s : LaunchSystem) (job attempt : ℕ) (reload : Option DbFault) :
    Option AppError × LaunchSystem :=
  let started := { s with running := s.running ++ [(job, attempt)] }
  let call := (s.registry.loadJob job).map fun record => (record, s.registry)
  match (withFault reload s.registry call).1 with
  | .error e => (some e, started)
  | .ok _ => (none, { started with actor := s.actor.register job attempt })

/-- Mark the job active, resolve the destination and launch the engine. -/
def runAttempt (s : LaunchSystem) (job attempt : ℕ) (answers : LaunchAnswers) :
    Option AppError × LaunchSystem :=
  let (marked, r) :=
    withFault answers.mark s.registry ((s.registry.markStatus job .active).map fun r => ((), r))
  let s := s.withRegistry r
  match marked with
  | .error e => (some e, s)
  | .ok () =>
      match answers.refusal with
      | some e => s.failLaunch attempt e answers.finish
      | none => s.trackLaunch job attempt answers.reload

/-- Persist the attempt and run it. -/
def launchJob (s : LaunchSystem) (job : ℕ) (reason : AttemptReason) (prebound : Option ℕ)
    (answers : LaunchAnswers) : Option AppError × LaunchSystem :=
  let (attempt, r) :=
    withFault answers.attempt s.registry (s.actor.attemptFor startupKey job reason prebound)
  let s := s.withRegistry r
  match attempt with
  | .error e => (some e, s)
  | .ok attempt => s.runAttempt job attempt answers

end LaunchSystem

/-! ### What a failed launch has to leave -/

/-- The attempt is finished as failed. -/
def AttemptRecord.failed (record : AttemptRecord) : Bool :=
  match record.outcome with
  | some (.failed _ _) => true
  | _ => false

namespace Registry

/-- The attempt is finished as failed, or does not exist. -/
def FailedOrAbsent (r : Registry) (attempt : ℕ) : Prop :=
  ∀ record ∈ r.attempts[attempt]?, record.failed = true

/-- The attempt that the launch was given is so already. -/
def AlreadyFailed (r : Registry) (prebound : Option ℕ) : Prop :=
  ∃ attempt ∈ prebound, r.FailedOrAbsent attempt

/-- The attempt that the launch was given, if any, is not finished. -/
def Unfinished (r : Registry) (prebound : Option ℕ) : Prop :=
  ∀ attempt ∈ prebound, ∃ record ∈ r.attempts[attempt]?, record.outcome = none

/-- There is an attempt to launch under, or a job to begin one for. -/
def Ready (r : Registry) (job : ℕ) : Option ℕ → Prop
  | some attempt => attempt < r.attempts.length
  | none => r.jobs.get? job ≠ none

/-- The job's status may be marked. -/
def Marks (r : Registry) (job : ℕ) : Prop :=
  ∃ record ∈ r.jobs.get? job, record.controlVersion < maxControlVersion

end Registry

/-- The engine runs a launch has started are tracked by what it has added, and
its attempt is finished as failed or does not exist. -/
structure LaunchSystem.Settled (s s' : LaunchSystem) (attempt : ℕ) : Prop where
  tracked : ∀ run ∈ s'.running.drop s.running.length,
    s'.actor.active.get? run.1 = some run.2 ∧
      run ∈ s'.actor.completions.drop s.actor.completions.length
  closed : s'.registry.FailedOrAbsent attempt

/-- The failures of a launch that it leaves settled. -/
structure LaunchRecovers (r : Registry) (job : ℕ) (prebound : Option ℕ) (answers : LaunchAnswers) :
    Prop where
  /-- The attempt is not read, or not begun. -/
  attempt : ∀ fault ∈ answers.attempt, r.AlreadyFailed prebound ∨
    prebound = none ∧ (fault.isBefore = true ∨ r.jobs.get? job = none)
  mark : answers.attempt = none → r.Ready job prebound →
    answers.mark ≠ none ∨ ¬ r.Marks job → r.AlreadyFailed prebound
  refused : answers.attempt = none → r.Ready job prebound → answers.mark = none → r.Marks job →
    answers.refusal ≠ none → r.AlreadyFailed prebound ∨
      r.Unfinished prebound ∧ answers.finish.all (!·.isBefore) = true
  reload : answers.attempt = none → r.Ready job prebound → answers.mark = none → r.Marks job →
    answers.refusal = none → answers.reload = none

/-! ### Calls that fail -/

/-- A call fails and writes nothing, fails and writes, or succeeds. -/
theorem withFault_cases {α : Type} (fault : Option DbFault) (r : Registry)
    (call : Except AppError (α × Registry)) :
    (∃ e, withFault fault r call = (.error e, r) ∧
      ((∃ f, fault = some f ∧ f.isBefore = true) ∨ ∃ e', call = .error e')) ∨
    (∃ e a r', call = .ok (a, r') ∧ fault = some (.after e) ∧
      withFault fault r call = (.error e, r')) ∨
    ∃ a r', call = .ok (a, r') ∧ fault = none ∧ withFault fault r call = (.ok a, r') := by
  rcases fault with - | e | e
  · rcases call with e' | ⟨a, r'⟩
    · exact .inl ⟨e', rfl, .inr ⟨e', rfl⟩⟩
    · exact .inr (.inr ⟨a, r', rfl, rfl, rfl⟩)
  · exact .inl ⟨e, rfl, .inl ⟨_, rfl, rfl⟩⟩
  · rcases call with e' | ⟨a, r'⟩
    · exact .inl ⟨e', rfl, .inr ⟨e', rfl⟩⟩
    · exact .inr (.inl ⟨e, a, r', rfl, rfl, rfl⟩)

namespace LaunchSystem

variable {startupKey : ℕ} {s s' : LaunchSystem} {job attempt : ℕ} {answers : LaunchAnswers}

/-- Without a run of the engine only the attempt counts. -/
theorem settled_iff (hrunning : s'.running = s.running) :
    s.Settled s' attempt ↔ s'.registry.FailedOrAbsent attempt := by
  refine ⟨Settled.closed, fun h => ⟨?_, h⟩⟩
  rw [hrunning, List.drop_length]
  nofun

/-- For an attempt that exists it is its record that decides. -/
theorem failedOrAbsent_iff {r : Registry} {record : AttemptRecord}
    (h : r.attempts[attempt]? = some record) :
    r.FailedOrAbsent attempt ↔ record.failed = true := by
  rw [Registry.FailedOrAbsent, h]
  exact ⟨fun hf => hf record rfl, fun hf record' hr => Option.some.inj hr ▸ hf⟩

/-- Finishing as failed: an open attempt is failed then, a finished one stays. -/
theorem recordOutcome_failed {r : Registry} {record : AttemptRecord} {e : AppError}
    (h : r.attempts[attempt]? = some record) :
    (r.recordOutcome attempt (.failed e.code none)).FailedOrAbsent attempt ↔
      record.failed = true ∨ record.outcome = none := by
  rcases hout : record.outcome with - | o
  · obtain ⟨after, -, houtcome, hafter⟩ :=
      Registry.recordOutcome_attempts (.failed e.code none) ⟨record, h, rfl, hout⟩
    rw [failedOrAbsent_iff hafter, AttemptRecord.failed, houtcome]
    exact ⟨fun _ => .inr rfl, fun _ => rfl⟩
  · rw [Registry.recordOutcome_finished _ h (by rw [hout]; rfl), failedOrAbsent_iff h]
    exact ⟨.inl, fun hor => hor.resolve_right nofun⟩

/-- What the clean-up leaves, whether it fails or not. -/
theorem failLaunch_settled {record : AttemptRecord} {e : AppError} {finish : Option DbFault}
    (h : s.registry.attempts[attempt]? = some record) :
    s.Settled (s.failLaunch attempt e finish).2 attempt ↔
      record.failed = true ∨ record.outcome = none ∧ finish.all (!·.isBefore) = true := by
  have hrecord := recordOutcome_failed (e := e) h
  have hrunning : (s.failLaunch attempt e finish).2.running = s.running := rfl
  rw [settled_iff hrunning]
  show (withFault finish s.registry _).2.FailedOrAbsent attempt ↔ _
  rw [Registry.recordOutcome] at hrecord
  rcases finish with - | e' | e'
  · rcases hcall : s.registry.finishAttempt attempt (.failed e.code none) with e'' | r <;>
      rw [hcall] at hrecord <;> simpa [withFault, Except.map] using hrecord
  · show s.registry.FailedOrAbsent attempt ↔ _
    rw [failedOrAbsent_iff h]
    exact ⟨.inl, fun hor => hor.elim id fun hopen => by cases hopen.2⟩
  · rcases hcall : s.registry.finishAttempt attempt (.failed e.code none) with e'' | r <;>
      rw [hcall] at hrecord <;>
      simpa [withFault, Except.map, DbFault.isBefore] using hrecord

/-- A run that was started and not registered is not tracked. -/
theorem trackLaunch_settled {reload : Option DbFault} {record : JobRecord}
    (hjob : s.registry.jobs.get? job = some record) :
    ((s.trackLaunch job attempt reload).1.isSome = true →
      s.Settled (s.trackLaunch job attempt reload).2 attempt) ↔ reload = none := by
  have hload : s.registry.loadJob job = .ok record := by
    rw [Registry.loadJob, hjob]
  unfold trackLaunch
  rw [hload]
  rcases reload with - | e | e
  · exact ⟨fun _ => rfl, fun _ => nofun⟩
  all_goals
    refine ⟨fun h => ?_, nofun⟩
    obtain ⟨-, hadded⟩ := (h rfl).tracked (job, attempt) (by simp [withFault, Except.map])
    simp [withFault, Except.map] at hadded

/-- The status is marked, and nothing else. -/
theorem markStatus_frame {r r' : Registry} (h : r.markStatus job .active = .ok r') :
    r'.attempts = r.attempts ∧ r.Marks job ∧ ∃ record, r'.jobs.get? job = some record := by
  obtain ⟨record, hrecord, hversion, rfl⟩ := Registry.markStatus_eq_ok h
  exact ⟨rfl, ⟨record, hrecord, hversion⟩, _, SortedMap.get?_insert_self ..⟩

theorem not_marks {r : Registry} {e : AppError} (h : r.markStatus job .active = .error e) :
    ¬ r.Marks job := by
  rintro ⟨record, hrecord, hversion⟩
  exact absurd hversion (Nat.not_lt.mpr (Registry.markStatus_eq_error h record hrecord))

/-- The mark fails: the attempt is left as it is. -/
theorem mark_settled {record : AttemptRecord} {r : Registry}
    (h : s.registry.attempts[attempt]? = some record) (hr : r.attempts = s.registry.attempts)
    (hfails : answers.mark ≠ none ∨ ¬ s.registry.Marks job) :
    s.Settled (s.withRegistry r) attempt ↔
    (answers.mark ≠ none ∨ ¬ s.registry.Marks job → record.failed = true) ∧
      (answers.mark = none → s.registry.Marks job → answers.refusal ≠ none →
        record.failed = true ∨ record.outcome = none ∧ answers.finish.all (!·.isBefore) = true) ∧
      (answers.mark = none → s.registry.Marks job → answers.refusal = none →
        answers.reload = none) := by
  have hrunning : (s.withRegistry r).running = s.running := rfl
  have hrecord : (s.withRegistry r).registry.attempts[attempt]? = some record := by
    show r.attempts[attempt]? = some record
    rw [hr, h]
  rw [settled_iff hrunning, failedOrAbsent_iff hrecord]
  refine ⟨fun hfailed => ⟨fun _ => hfailed, fun _ _ _ => .inl hfailed, fun hmark hmarks _ => ?_⟩,
    fun hall => hall.1 hfails⟩
  exact hfails.elim (absurd hmark) (absurd hmarks)

theorem settled_withRegistry {r : Registry} :
    (s.withRegistry r).Settled s' attempt ↔ s.Settled s' attempt :=
  ⟨fun h => ⟨h.tracked, h.closed⟩, fun h => ⟨h.tracked, h.closed⟩⟩

/-- The call that marks the job's status. -/
def markCall (s : LaunchSystem) (job : ℕ) (answers : LaunchAnswers) :
    Except AppError Unit × Registry :=
  withFault answers.mark s.registry ((s.registry.markStatus job .active).map fun r => ((), r))

theorem runAttempt_of_error {e : AppError} {r : Registry}
    (h : s.markCall job answers = (.error e, r)) :
    s.runAttempt job attempt answers = (some e, s.withRegistry r) := by
  unfold markCall at h
  rw [runAttempt, h]

theorem runAttempt_of_refusal {e : AppError} {r : Registry} (h : s.markCall job answers = (.ok (), r))
    (hrefusal : answers.refusal = some e) :
    s.runAttempt job attempt answers = (s.withRegistry r).failLaunch attempt e answers.finish := by
  unfold markCall at h
  simp only [runAttempt, h, hrefusal]

theorem runAttempt_of_launch {r : Registry} (h : s.markCall job answers = (.ok (), r))
    (hrefusal : answers.refusal = none) :
    s.runAttempt job attempt answers = (s.withRegistry r).trackLaunch job attempt answers.reload := by
  unfold markCall at h
  simp only [runAttempt, h, hrefusal]

/-- The mark fails, and the attempts are as they were; or it does not. -/
theorem markCall_cases (s : LaunchSystem) (job : ℕ) (answers : LaunchAnswers) :
    (∃ e r, s.markCall job answers = (.error e, r) ∧ r.attempts = s.registry.attempts ∧
      (answers.mark ≠ none ∨ ¬ s.registry.Marks job)) ∨
    ∃ r record, s.markCall job answers = (.ok (), r) ∧ r.attempts = s.registry.attempts ∧
      answers.mark = none ∧ s.registry.Marks job ∧ r.jobs.get? job = some record := by
  unfold markCall
  rcases hmark : s.registry.markStatus job .active with e | r
  · have hno := not_marks hmark
    rcases hfault : answers.mark with - | e' | e'
    · exact .inl ⟨e, s.registry, rfl, rfl, .inr hno⟩
    · exact .inl ⟨e', s.registry, rfl, rfl, .inr hno⟩
    · exact .inl ⟨e, s.registry, rfl, rfl, .inr hno⟩
  · obtain ⟨hattempts, hmarks, record, hrecord⟩ := markStatus_frame hmark
    rcases hfault : answers.mark with - | e' | e'
    · exact .inr ⟨r, record, rfl, hattempts, rfl, hmarks, hrecord⟩
    · exact .inl ⟨e', s.registry, rfl, rfl, .inl nofun⟩
    · exact .inl ⟨e', r, rfl, hattempts, .inl nofun⟩

/-- When an attempt that was begun is left settled. -/
theorem runAttempt_settled {record : AttemptRecord}
    (h : s.registry.attempts[attempt]? = some record) :
    ((s.runAttempt job attempt answers).1.isSome = true →
      s.Settled (s.runAttempt job attempt answers).2 attempt) ↔
    (answers.mark ≠ none ∨ ¬ s.registry.Marks job → record.failed = true) ∧
      (answers.mark = none → s.registry.Marks job → answers.refusal ≠ none →
        record.failed = true ∨ record.outcome = none ∧ answers.finish.all (!·.isBefore) = true) ∧
      (answers.mark = none → s.registry.Marks job → answers.refusal = none →
        answers.reload = none) := by
  rcases s.markCall_cases job answers with
    ⟨e, r, heq, hattempts, hfails⟩ | ⟨r, marked, heq, hattempts, hmark, hmarks, hmarked⟩
  · rw [runAttempt_of_error heq, ← mark_settled h hattempts hfails]
    exact ⟨fun hs => hs rfl, fun hs _ => hs⟩
  · have hrecord : (s.withRegistry r).registry.attempts[attempt]? = some record := by
      show r.attempts[attempt]? = some record
      rw [hattempts, h]
    have hmarkless : ¬ (answers.mark ≠ none ∨ ¬ s.registry.Marks job) :=
      fun hno => hno.elim (absurd hmark) (absurd hmarks)
    rcases hrefusal : answers.refusal with - | e
    · -- the engine was launched
      rw [runAttempt_of_launch heq hrefusal, ← settled_withRegistry (r := r),
        trackLaunch_settled (s := s.withRegistry r) hmarked]
      exact ⟨fun hreload => ⟨fun hno => absurd hno hmarkless, fun _ _ hno => absurd rfl hno,
        fun _ _ _ => hreload⟩, fun hall => hall.2.2 hmark hmarks rfl⟩
    · rw [runAttempt_of_refusal heq hrefusal, ← settled_withRegistry (r := r),
        failLaunch_settled hrecord]
      exact ⟨fun hfailed => ⟨fun hno => absurd hno hmarkless, fun _ _ _ => hfailed rfl, nofun⟩,
        fun hall _ => hall.2.1 hmark hmarks nofun⟩

/-! ### The attempt -/

/-- The attempt a launch uses: the one it was given, or the next one. -/
def launchAttempt (s : LaunchSystem) (prebound : Option ℕ) : ℕ :=
  prebound.getD s.registry.attempts.length

variable {reason : AttemptReason} {prebound : Option ℕ}

/-- There is no attempt, and none was begun. -/
theorem attemptFor_error {e : AppError}
    (h : s.actor.attemptFor startupKey job reason prebound = .error e) :
    ¬ s.registry.Ready job prebound ∧ s.registry.attempts[s.launchAttempt prebound]? = none ∧
      (s.registry.AlreadyFailed prebound ∨ prebound = none ∧ s.registry.jobs.get? job = none) := by
  rcases prebound with - | a
  · have hjob : s.registry.jobs.get? job = none := by
      by_contra hne
      obtain ⟨record, hrecord⟩ := Option.ne_none_iff_exists'.mp hne
      have hok := Registry.beginAttemptOnce_fresh hrecord reason startupKey
      rw [Actor.attemptFor] at h
      rw [show s.registry = s.actor.registry from rfl, h] at hok
      cases hok
    exact ⟨fun hready => hready hjob, List.getElem?_eq_none le_rfl, .inr ⟨rfl, hjob⟩⟩
  · have hnone : s.registry.attempts[a]? = none := by
      rw [Actor.attemptFor, Registry.loadAttempt] at h
      rcases hload : s.actor.registry.attempts[a]? with - | record
      · exact hload
      · rw [hload] at h
        cases h
    refine ⟨fun hready => ?_, hnone, .inl ⟨a, rfl, ?_⟩⟩
    · exact absurd (List.getElem?_eq_none_iff.mp hnone) (Nat.not_le.mpr hready)
    · intro record hrecord
      rw [hnone] at hrecord
      cases hrecord

/-- The attempt a launch goes on with. -/
theorem attemptFor_ok {a : ℕ} {r : Registry}
    (h : s.actor.attemptFor startupKey job reason prebound = .ok (a, r)) :
    a = s.launchAttempt prebound ∧ s.registry.Ready job prebound ∧
      (r.Marks job ↔ s.registry.Marks job) ∧
      ¬ (prebound = none ∧ s.registry.jobs.get? job = none) ∧
      ∃ record, r.attempts[a]? = some record ∧
        (record.failed = true ↔ s.registry.AlreadyFailed prebound) ∧
        (record.outcome = none ↔ s.registry.Unfinished prebound) := by
  rcases prebound with - | given
  · -- an attempt is begun under a new key
    rw [Actor.attemptFor] at h
    rcases hjob : s.actor.registry.jobs.get? job with - | record
    · rw [Registry.beginAttemptOnce, Registry.attemptByLaunchKey_fresh, hjob] at h
      cases h
    · rw [Registry.beginAttemptOnce_fresh hjob] at h
      cases h
      have hrow : s.registry.jobs.get? job = some record := hjob
      have hnew := SortedMap.get?_insert_self s.registry.jobs job
        { record with currentAttemptId := some s.registry.attempts.length }
      have hready : s.registry.Ready job none := by
        show s.registry.jobs.get? job ≠ none
        rw [hrow]
        exact Option.some_ne_none record
      refine ⟨rfl, hready, ?_, fun hno => ?_,
        ⟨job, s.registry.freshLaunchKey startupKey, reason, none⟩,
        by simp [Registry.insertAttempt, registry], ?_, ?_⟩
      · constructor
        · rintro ⟨record', hrecord', hversion⟩
          cases hnew.symm.trans hrecord'
          exact ⟨record, hrow, hversion⟩
        · rintro ⟨record', hrecord', hversion⟩
          cases hrow.symm.trans hrecord'
          exact ⟨_, hnew, hversion⟩
      · rw [hrow] at hno
        cases hno.2
      · constructor
        · intro hfailed
          cases hfailed
        · rintro ⟨attempt, hmem, -⟩
          cases hmem
      · refine ⟨fun _ attempt hmem => ?_, fun _ => rfl⟩
        cases hmem
  · rw [Actor.attemptFor, Registry.loadAttempt] at h
    rcases hload : s.actor.registry.attempts[given]? with - | record
    · rw [hload] at h
      cases h
    · rw [hload] at h
      cases h
      have hrecord : s.registry.attempts[a]? = some record := hload
      have hgiven : ¬ (some a = none ∧ s.registry.jobs.get? job = none) := fun h =>
        Option.some_ne_none a h.1
      refine ⟨rfl, (List.getElem?_eq_some_iff.mp hrecord).1, Iff.rfl, hgiven, record, hrecord,
        ?_, ?_⟩
      · rw [← failedOrAbsent_iff hrecord]
        constructor
        · intro hfailed
          exact ⟨a, rfl, hfailed⟩
        · rintro ⟨b, hb, hfailed⟩
          rwa [← Option.some.inj hb] at hfailed
      · refine ⟨fun hopen b hb => ?_, fun hopen => ?_⟩
        · rw [← Option.some.inj hb]
          exact ⟨record, hrecord, hopen⟩
        · obtain ⟨record', hrecord', hopen'⟩ := hopen a rfl
          rw [hrecord] at hrecord'
          cases hrecord'
          exact hopen'

/-! ### The launch -/

theorem launchJob_of_error {e : AppError} {r : Registry}
    (h : withFault answers.attempt s.registry (s.actor.attemptFor startupKey job reason prebound) =
      (.error e, r)) :
    s.launchJob startupKey job reason prebound answers = (some e, s.withRegistry r) := by
  rw [launchJob, h]

theorem launchJob_of_ok {a : ℕ} {r : Registry}
    (h : withFault answers.attempt s.registry (s.actor.attemptFor startupKey job reason prebound) =
      (.ok a, r)) :
    s.launchJob startupKey job reason prebound answers =
      (s.withRegistry r).runAttempt job a answers := by
  rw [launchJob, h]

theorem failedOrAbsent_launchAttempt : s.registry.FailedOrAbsent (s.launchAttempt prebound) ↔
    s.registry.AlreadyFailed prebound ∨ prebound = none := by
  rcases prebound with - | given
  · refine ⟨fun _ => .inr rfl, fun _ record hrecord => ?_⟩
    rw [launchAttempt, Option.getD_none, List.getElem?_eq_none le_rfl] at hrecord
    cases hrecord
  · refine ⟨fun h => .inl ⟨given, rfl, h⟩, fun h => ?_⟩
    obtain ⟨attempt, hmem, h⟩ := h.resolve_right nofun
    cases hmem
    exact h

/-- With a failure at the attempt only that one counts. -/
theorem recovers_of_attempt {r : Registry} {fault : DbFault} (hfault : answers.attempt = some fault) :
    LaunchRecovers r job prebound answers ↔ r.AlreadyFailed prebound ∨
      prebound = none ∧ (fault.isBefore = true ∨ r.jobs.get? job = none) := by
  have hne : answers.attempt ≠ none := by
    rw [hfault]
    nofun
  refine ⟨fun h => h.attempt fault hfault, fun h => ⟨fun fault' hmem => ?_, fun hno => absurd hno hne,
    fun hno => absurd hno hne, fun hno => absurd hno hne⟩⟩
  rw [hfault] at hmem
  cases hmem
  exact h

/-- **Launch atomicity.**  A launch that returns an error leaves no engine run
untracked and its attempt finished as failed, or never created, exactly when
what failed is among the failures it recovers from. -/
theorem launch_atomic_iff (startupKey : ℕ) (s : LaunchSystem) (job : ℕ) (reason : AttemptReason)
    (prebound : Option ℕ) (answers : LaunchAnswers) :
    ((s.launchJob startupKey job reason prebound answers).1.isSome = true →
      s.Settled (s.launchJob startupKey job reason prebound answers).2 (s.launchAttempt prebound)) ↔
    LaunchRecovers s.registry job prebound answers := by
  rcases withFault_cases answers.attempt s.registry
      (s.actor.attemptFor startupKey job reason prebound) with
    ⟨e, heq, hwhy⟩ | ⟨e, a, r, hcall, hfault, heq⟩ | ⟨a, r, hcall, hnone, heq⟩
  · -- nothing was written
    have hrunning : (s.withRegistry s.registry).running = s.running := rfl
    rw [launchJob_of_error heq, settled_iff hrunning]
    show (_ → s.registry.FailedOrAbsent _) ↔ _
    rcases hcall : s.actor.attemptFor startupKey job reason prebound with e' | ⟨a, r⟩
    · obtain ⟨hready, habsent, hor⟩ := attemptFor_error hcall
      refine ⟨fun _ => ⟨fun fault _ => hor.imp_right fun hno => ⟨hno.1, .inr hno.2⟩,
        fun _ hno => absurd hno hready, fun _ hno => absurd hno hready,
        fun _ hno => absurd hno hready⟩, fun _ _ record hrecord => ?_⟩
      rw [habsent] at hrecord
      cases hrecord
    · obtain ⟨f, hf, hbefore⟩ := hwhy.resolve_right (by rw [hcall]; nofun)
      rw [recovers_of_attempt hf, failedOrAbsent_launchAttempt]
      exact ⟨fun h => (h rfl).imp_right fun hno => ⟨hno, .inl hbefore⟩,
        fun h _ => h.imp_right And.left⟩
  · -- an attempt was begun, and the answer was lost
    obtain ⟨hattempt, -, -, hjob, record, hrecord, hfailed, -⟩ := attemptFor_ok hcall
    have hrunning : (s.withRegistry r).running = s.running := rfl
    rw [launchJob_of_error heq, settled_iff hrunning, ← hattempt, recovers_of_attempt hfault,
      show (s.withRegistry r).registry = r from rfl, failedOrAbsent_iff hrecord, hfailed]
    refine ⟨fun h => .inl (h rfl), fun h _ => h.resolve_right fun hno => ?_⟩
    exact hno.2.elim nofun fun hmissing => hjob ⟨hno.1, hmissing⟩
  · obtain ⟨hattempt, hready, hmarks, -, record, hrecord, hfailed, hopen⟩ := attemptFor_ok hcall
    rw [launchJob_of_ok heq, ← hattempt, ← settled_withRegistry (r := r),
      runAttempt_settled (s := s.withRegistry r) hrecord, hfailed, hopen,
      show (s.withRegistry r).registry.Marks job ↔ s.registry.Marks job from hmarks]
    constructor
    · rintro ⟨hmark, hrefused, hreload⟩
      refine ⟨fun fault hmem => ?_, fun _ _ => hmark, fun _ _ => hrefused, fun _ _ => hreload⟩
      rw [hnone] at hmem
      cases hmem
    · intro h
      exact ⟨h.mark hnone hready, h.refused hnone hready, h.reload hnone hready⟩

/-- Job 0 is queued, and nothing has run yet. -/
def idleSystem : LaunchSystem where
  actor :=
    { registry := ⟨.insert .empty 0 ⟨.running, .queued, 1, none⟩, []⟩
      active := .empty
      queue := []
      maxActive := 1
      shuttingDown := false
      completions := []
      recovery := []
      stage := .classify
      launches := []
      accepted := [] }
  running := []

/-- The engine runs, and then the job's record is not read. -/
theorem launched_and_lost : ∃ e s',
    idleSystem.launchJob 0 0 .initial none
        ⟨false, none, none, none, none, none, none, none, some (.before (.other "persistence"))⟩ =
      (some e, s') ∧
    s'.running = [(0, 0)] ∧ s'.actor.active.get? 0 = none ∧ s'.actor.completions = [] ∧
    s'.registry.attempts[0]?.map (·.outcome) = some none :=
  ⟨_, _, rfl, rfl, rfl, rfl, rfl⟩

theorem trackLaunch_faultless {record : JobRecord}
    (hjob : s.registry.jobs.get? job = some record) :
    s.trackLaunch job attempt none =
      (none, { actor := s.actor.register job attempt, running := s.running ++ [(job, attempt)] }) := by
  have hload : s.registry.loadJob job = .ok record := by
    rw [Registry.loadJob, hjob]
  unfold trackLaunch
  rw [hload]
  rfl

theorem failLaunch_faultless {e : AppError} :
    s.failLaunch attempt e none =
      (some e, s.withRegistry (s.registry.recordOutcome attempt (.failed e.code none))) := by
  show (some e, s.withRegistry (withFault none s.registry
    ((s.registry.finishAttempt attempt (.failed e.code none)).map fun r => ((), r))).2) = _
  rw [Registry.recordOutcome]
  rcases s.registry.finishAttempt attempt (.failed e.code none) with e' | r <;> rfl

/-- **Without failures of the registry this is the launch of the supervisor.** -/
theorem launch_faultless (startupKey : ℕ) (s : LaunchSystem) (job : ℕ) (reason : AttemptReason)
    (prebound : Option ℕ) (overridden : Bool) (filename resolve directory engine : Option AppError) :
    let answers : LaunchAnswers :=
      ⟨overridden, none, none, filename, resolve, directory, engine, none, none⟩
    let launched := s.launchJob startupKey job reason prebound answers
    (launched.1, launched.2.actor) =
      s.actor.launchJob startupKey job reason prebound answers.refusal := by
  intro answers launched
  show ((s.launchJob startupKey job reason prebound answers).1,
    (s.launchJob startupKey job reason prebound answers).2.actor) = _
  rw [Actor.launchJob]
  rcases hcall : s.actor.attemptFor startupKey job reason prebound with e | ⟨a, r⟩
  · have heq : withFault answers.attempt s.registry
        (s.actor.attemptFor startupKey job reason prebound) = (.error e, s.registry) := by
      rw [hcall]
      rfl
    rw [launchJob_of_error heq]
    rfl
  · have heq : withFault answers.attempt s.registry
        (s.actor.attemptFor startupKey job reason prebound) = (.ok a, r) := by
      rw [hcall]
      rfl
    rw [launchJob_of_ok heq]
    rcases hmarked : r.markStatus job .active with e | r'
    · have hmark : (s.withRegistry r).markCall job answers = (.error e, r) := by
        show withFault none r ((r.markStatus job .active).map fun r => ((), r)) = _
        rw [hmarked]
        rfl
      rw [runAttempt_of_error hmark]
      simp only [hmarked]
      rfl
    · have hmark : (s.withRegistry r).markCall job answers = (.ok (), r') := by
        show withFault none r ((r.markStatus job .active).map fun r => ((), r)) = _
        rw [hmarked]
        rfl
      rcases hrefusal : answers.refusal with - | e
      · rw [runAttempt_of_launch hmark hrefusal]
        obtain ⟨-, -, record, hrecord⟩ := markStatus_frame hmarked
        show ((((s.withRegistry r).withRegistry r').trackLaunch job a none).1,
          (((s.withRegistry r).withRegistry r').trackLaunch job a none).2.actor) = _
        rw [trackLaunch_faultless (s := (s.withRegistry r).withRegistry r') hrecord]
        simp only [hmarked]
        rfl
      · rw [runAttempt_of_refusal hmark hrefusal]
        show ((((s.withRegistry r).withRegistry r').failLaunch a e none).1,
          (((s.withRegistry r).withRegistry r').failLaunch a e none).2.actor) = _
        rw [failLaunch_faultless]
        simp only [hmarked]
        rfl

end LaunchSystem

end KDown
