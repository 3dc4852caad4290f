/-
KDown/CheckpointCoordinator.lean

The checkpoint coordinator of a segmented job (job/segmented.rs).

One task saves checkpoints while the workers go on.  A save snapshots the
settled ranges under the scheduler lock, compares them with what was saved
last, looks at the generation again, in Durable mode syncs the output data,
builds the checkpoint, reserves memory for it and hands it to the store.
Between any two of these steps the workers may do anything, so the coordinator
is a program counter (`CoordinatorPhase`) beside the job's state.

`saves_ordered` says that what is handed to the store in Durable mode was
settled before the data sync that came in between began, and that a save that
fails leaves the remembered snapshot alone, so that the next one covers the
same bytes again.
-/
import KDown.CoordinatedStore
import KDown.Segmented
import KDown.SchedulerCredit
import KDown.Sequential

namespace KDown

open IntervalSet (NormalRanges InRanges)

/-! ### The coordinator -/

/-- What the last successful save recorded. -/
structure SavedRevision where
  ranges : List ByteRange
  generation : ℕ
  validators : ResourceValidators
  deriving DecidableEq

/-- What makes the coordinator save. -/
inductive SaveTrigger
  /-- Immediately at the start, before the loop. -/
  | first
  | tick
  /-- A worker's request at a pause boundary. -/
  | saveNow
  deriving DecidableEq

/-- Where the coordinator stands. -/
inductive CoordinatorPhase
  | starting
  | waiting
  /-- A snapshot was taken; the generation is looked at once more. -/
  | checking (trigger : SaveTrigger) (candidate : SavedRevision)
  /-- The data sync is issued next. -/
  | fenced (trigger : SaveTrigger) (candidate : SavedRevision)
  | syncing (trigger : SaveTrigger) (candidate : SavedRevision)
  | building (trigger : SaveTrigger) (candidate : SavedRevision)
  /-- The store was called with the checkpoint. -/
  | storing (trigger : SaveTrigger) (candidate : SavedRevision) (checkpoint : Checkpoint)
  | exited

/-- The snapshot of the save in progress. -/
def CoordinatorPhase.candidate? : CoordinatorPhase → Option SavedRevision
  | .starting | .waiting | .exited => none
  | .checking _ c | .fenced _ c | .syncing _ c | .building _ c | .storing _ c _ => some c

/-- The coordinator has ended. -/
def CoordinatorPhase.hasExited : CoordinatorPhase → Bool
  | .exited => true
  | _ => false

/-- The job, and where and how its checkpoint is saved. -/
structure CoordinatorConfig where
  job : SegmentedConfig
  durability : DurabilityMode
  /-- The output offers a data sync. -/
  canSync : Bool
  identity : String
  tempPath : String

/-- The job with its coordinator. -/
structure CoordinatedJob where
  job : SegmentedState
  phase : CoordinatorPhase
  lastSaved : Option SavedRevision

/-- What can happen to the coordinator. -/
inductive CoordinatorEvent
  | begin (trigger : SaveTrigger)
  | fence
  | sync
  | syncDone (failure : Option DownloadError)
  /-- The temp path's entry, as it is looked up for the identity and for the
  digest, the time, and the refusal of the size estimate or the reservation. -/
  | build (entry digestEntry : Option TempEntry) (now : String) (refusal : Option DownloadError)
  | stored (failure : Option DownloadError)
  | stop

/-- The sync, the reservation or the store fails. -/
def CoordinatorEvent.isFailure : CoordinatorEvent → Bool
  | .syncDone (some _) => true
  | .build _ _ _ (some _) => true
  | .stored (some _) => true
  | _ => false

/-- The job or its coordinator takes a step. -/
inductive CoordinatedEvent
  | segmented (e : SegmentedEvent)
  | coordinator (e : CoordinatorEvent)

namespace CoordinatedJob

variable (hash : List UInt8 → String) (cfg : CoordinatorConfig)

/-- A save attempt returns. -/
def finishSave (s : CoordinatedJob) (trigger : SaveTrigger) : Option DownloadError →
    CoordinatedJob
  | none => { s with phase := .waiting }
  | some e =>
      match trigger with
      -- the error goes back to the pausing worker
      | .saveNow => { s with phase := .waiting }
      | .first | .tick => { s with phase := .exited, job := s.job.installFatal e }

/-- Reconcile the cells and snapshot the settled ranges, in one lock. -/
def beginSave (s : CoordinatedJob) (trigger : SaveTrigger) : CoordinatedJob :=
  let s := { s with job := s.job.reconcile cfg.job.workers }
  let candidate : SavedRevision :=
    { ranges := s.job.sched.settledRanges
      generation := s.job.sched.generation
      validators := cfg.job.validators }
  if candidate.ranges.isEmpty then s.finishSave trigger none
  -- unchanged snapshots are skipped
  else if s.lastSaved = some candidate then s.finishSave trigger none
  else { s with phase := .checking trigger candidate }

/-- The checkpoint of a snapshot. -/
def buildCheckpoint (candidate : SavedRevision) (entry digestEntry : Option TempEntry)
    (now : String) : Checkpoint :=
  let cp : Checkpoint :=
    { formatVersion := 2
      jobId := cfg.identity
      tempPathIdentity := s!"tmp-{cfg.identity}"
      ownedTempIdentity := none
      coveredDigest := none
      totalSize := some cfg.job.totalSize
      validators := candidate.validators
      completedRanges := candidate.ranges
      expectedHashes := []
      createdAt := now
      updatedAt := now }
  (cp.setOwnedTempIdentity cfg.tempPath entry).setCoveredDigest hash digestEntry

/-- One event of the coordinator. -/
def coordinatorStep (s : CoordinatedJob) : CoordinatorEvent → Option CoordinatedJob
  | .begin trigger =>
      match s.phase, trigger with
      | .starting, .first => some (s.beginSave cfg .first)
      | .waiting, .tick => some (s.beginSave cfg .tick)
      | .waiting, .saveNow => some (s.beginSave cfg .saveNow)
      | _, _ => none
  | .fence =>
      match s.phase with
      | .checking trigger c =>
          -- a generation rollover invalidates the snapshot
          if s.job.sched.generation ≠ c.generation then some (s.finishSave trigger none)
          else
            match cfg.durability with
            | .durable =>
                if cfg.canSync then some { s with phase := .fenced trigger c }
                else some (s.finishSave trigger
                  (some (.sinkWrite "durable checkpoint save has no sync capability")))
            | .performance => some { s with phase := .building trigger c }
      | _ => none
  | .sync =>
      match s.phase with
      | .fenced trigger c => some { s with phase := .syncing trigger c }
      | _ => none
  | .syncDone failure =>
      match s.phase with
      | .syncing trigger c =>
          match failure with
          | none => some { s with phase := .building trigger c }
          | some e => some (s.finishSave trigger (some e))
      | _ => none
  | .build entry digestEntry now refusal =>
      match s.phase with
      | .building trigger c =>
          match refusal with
          | none =>
              some { s with
                phase := .storing trigger c (buildCheckpoint hash cfg c entry digestEntry now) }
          | some e => some (s.finishSave trigger (some e))
      | _ => none
  | .stored failure =>
      match s.phase with
      | .storing trigger c _ =>
          match failure with
          -- the revision advances only here
          | none => some ({ s with lastSaved := some c }.finishSave trigger none)
          | some e => some (s.finishSave trigger (some e))
      | _ => none
  | .stop =>
      match s.phase with
      | .waiting => some { s with phase := .exited }
      | _ => none

/-- The checkpoint that the store is being called with. -/
def handed (s : CoordinatedJob) : Option Checkpoint :=
  match s.phase with
  | .storing _ _ cp => some cp
  | _ => none

end CoordinatedJob

/-- One event of the job with its coordinator. -/
def coordinatedStep (hash : List UInt8 → String) (cfg : CoordinatorConfig) (s : CoordinatedJob) :
    CoordinatedEvent → Option CoordinatedJob
  | .segmented e => (segmentedStep cfg.job s.job e).map fun job => { s with job := job }
  | .coordinator e => s.coordinatorStep hash cfg e

/-- The job and its coordinator at the start. -/
def coordinatedInit (cfg : CoordinatorConfig) : CoordinatedJob where
  job := segmentedInit cfg.job
  phase := .starting
  lastSaved := none

/-! ### Snapshots and later states -/

/-- The revision's bytes are settled, and its generation is not ahead. -/
structure SavedRevision.Behind (r : SavedRevision) (sched : SegmentScheduler) : Prop where
  normal : NormalRanges r.ranges
  settled : ∀ b, InRanges r.ranges b → InRanges sched.settledRanges b
  generation : r.generation ≤ sched.generation

/-- `c` was taken after `r` and differs from it. -/
structure SavedRevision.Newer (c r : SavedRevision) : Prop where
  ne : r ≠ c
  covers : ∀ b, InRanges r.ranges b → InRanges c.ranges b
  generation : r.generation ≤ c.generation
  validators : r.validators = c.validators

/-- What was settled stays settled. -/
theorem SavedRevision.Behind.steps {r : SavedRevision} {sched sched' : SegmentScheduler}
    (h : r.Behind sched) (hwf : sched.ledger.WellFormed)
    (hsteps : Relation.ReflTransGen Ledger.Step sched.ledger sched'.ledger) :
    r.Behind sched' := by
  refine ⟨h.normal, fun b hb => ?_, h.generation.trans (Ledger.generation_le_of_steps hsteps)⟩
  rw [SegmentScheduler.inRanges_settledRanges]
  exact .steps hwf hsteps (SegmentScheduler.inRanges_settledRanges.mp (h.settled b hb))

/-- The next snapshot after one that was not saved differs from what was saved
before, and covers it. -/
theorem SavedRevision.Newer.next {c r next : SavedRevision} (h : c.Newer r)
    (hc : NormalRanges c.ranges) (hr : NormalRanges r.ranges)
    (hcovers : ∀ b, InRanges c.ranges b → InRanges next.ranges b)
    (hgen : c.generation ≤ next.generation) : r ≠ next := by
  rintro rfl
  -- both inclusions hold, so the two revisions would have been equal
  have hranges : r.ranges = c.ranges := hr.eq_of_inRanges hc fun b => ⟨h.covers b, hcovers b⟩
  refine h.ne ?_
  obtain ⟨ranges, generation, validators⟩ := r
  obtain ⟨ranges', generation', validators'⟩ := c
  have := h.generation
  have := h.validators
  simp only at *
  rw [SavedRevision.mk.injEq]
  exact ⟨hranges, by omega, by assumption⟩

/-! ### Steps of the coordinator -/

namespace CoordinatedJob

variable {hash : List UInt8 → String} {cfg : CoordinatorConfig} {s s' : CoordinatedJob}

/-- A finished attempt leaves the scheduler and the remembered revision. -/
theorem finishSave_spec (s : CoordinatedJob) (trigger : SaveTrigger)
    (failure : Option DownloadError) :
    (s.finishSave trigger failure).phase.candidate? = none ∧
      (s.finishSave trigger failure).job.sched = s.job.sched ∧
      (s.finishSave trigger failure).lastSaved = s.lastSaved := by
  rcases failure with - | e <;> cases trigger <;> exact ⟨rfl, rfl, rfl⟩

/-- The snapshot a save begins with. -/
def snapshot (cfg : CoordinatorConfig) (s : CoordinatedJob) : SavedRevision where
  ranges := (s.job.reconcile cfg.job.workers).sched.settledRanges
  generation := (s.job.reconcile cfg.job.workers).sched.generation
  validators := cfg.job.validators

/-- A save begins with its snapshot, unless it has no ranges or is the one that
was saved last. -/
theorem beginSave_spec (cfg : CoordinatorConfig) (s : CoordinatedJob) (trigger : SaveTrigger) :
    (s.beginSave cfg trigger).job.sched = (s.job.reconcile cfg.job.workers).sched ∧
    (s.beginSave cfg trigger).lastSaved = s.lastSaved ∧
    (((s.snapshot cfg).ranges = [] ∨ s.lastSaved = some (s.snapshot cfg)) ∧
        (s.beginSave cfg trigger).phase.candidate? = none ∨
      (s.snapshot cfg).ranges ≠ [] ∧ s.lastSaved ≠ some (s.snapshot cfg) ∧
        (s.beginSave cfg trigger).phase = .checking trigger (s.snapshot cfg)) := by
  have hfin := finishSave_spec { s with job := s.job.reconcile cfg.job.workers } trigger none
  unfold beginSave
  simp only
  split_ifs with hempty hsame
  · exact ⟨hfin.2.1, hfin.2.2, .inl ⟨.inl (List.isEmpty_iff.mp hempty), hfin.1⟩⟩
  · exact ⟨hfin.2.1, hfin.2.2, .inl ⟨.inr hsame, hfin.1⟩⟩
  · refine ⟨rfl, rfl, .inr ⟨?_, hsame, rfl⟩⟩
    exact fun h => hempty (List.isEmpty_iff.mpr h)

/-- The four things an event of the coordinator can do: begin a save, end or
leave the attempt, move on with its candidate, or remember it. -/
theorem coordinatorStep_cases {e : CoordinatorEvent}
    (h : s.coordinatorStep hash cfg e = some s') :
    (∃ trigger, e = .begin trigger ∧ s.phase.candidate? = none ∧
      s' = s.beginSave cfg trigger) ∨
    ((∀ trigger, e ≠ .begin trigger) ∧ s'.phase.candidate? = none ∧
      s'.job.sched = s.job.sched ∧ s'.lastSaved = s.lastSaved) ∨
    ((∀ trigger, e ≠ .begin trigger) ∧ s'.phase.candidate? = s.phase.candidate? ∧
      s'.job = s.job ∧ s'.lastSaved = s.lastSaved) ∨
    ∃ trigger c cp, e = .stored none ∧ s.phase = .storing trigger c cp ∧
      s' = { s with phase := .waiting, lastSaved := some c } := by
  cases e with
  | begin trigger =>
    simp only [coordinatorStep] at h
    split at h
    · rename_i hp
      exact .inl ⟨_, rfl, by rw [hp]; rfl, (Option.some.inj h).symm⟩
    · rename_i hp
      exact .inl ⟨_, rfl, by rw [hp]; rfl, (Option.some.inj h).symm⟩
    · rename_i hp
      exact .inl ⟨_, rfl, by rw [hp]; rfl, (Option.some.inj h).symm⟩
    · cases h
  | fence =>
    simp only [coordinatorStep] at h
    split at h
    · rename_i trigger c hp
      split at h
      · rw [← Option.some.inj h]
        exact .inr (.inl ⟨by simp, s.finishSave_spec trigger none⟩)
      · split at h
        · split at h
          · rw [← Option.some.inj h]
            exact .inr (.inr (.inl ⟨by simp, by rw [hp]; rfl, rfl, rfl⟩))
          · rw [← Option.some.inj h]
            exact .inr (.inl ⟨by simp, s.finishSave_spec trigger _⟩)
        · rw [← Option.some.inj h]
          exact .inr (.inr (.inl ⟨by simp, by rw [hp]; rfl, rfl, rfl⟩))
    · cases h
  | sync =>
    simp only [coordinatorStep] at h
    split at h
    · rename_i trigger c hp
      rw [← Option.some.inj h]
      exact .inr (.inr (.inl ⟨by simp, by rw [hp]; rfl, rfl, rfl⟩))
    · cases h
  | syncDone failure =>
    simp only [coordinatorStep] at h
    split at h
    · rename_i trigger c hp
      rcases failure with - | e
      · rw [← Option.some.inj h]
        exact .inr (.inr (.inl ⟨by simp, by rw [hp]; rfl, rfl, rfl⟩))
      · rw [← Option.some.inj h]
        exact .inr (.inl ⟨by simp, s.finishSave_spec trigger _⟩)
    · cases h
  | build entry digestEntry now refusal =>
    simp only [coordinatorStep] at h
    split at h
    · rename_i trigger c hp
      rcases refusal with - | e
      · rw [← Option.some.inj h]
        exact .inr (.inr (.inl ⟨by simp, by rw [hp]; rfl, rfl, rfl⟩))
      · rw [← Option.some.inj h]
        exact .inr (.inl ⟨by simp, s.finishSave_spec trigger _⟩)
    · cases h
  | stored failure =>
    simp only [coordinatorStep] at h
    split at h
    · rename_i trigger c cp hp
      rcases failure with - | e
      · rw [← Option.some.inj h]
        exact .inr (.inr (.inr ⟨trigger, c, cp, rfl, hp, rfl⟩))
      · rw [← Option.some.inj h]
        exact .inr (.inl ⟨by simp, s.finishSave_spec trigger _⟩)
    · cases h
  | stop =>
    simp only [coordinatorStep] at h
    split at h
    · rw [← Option.some.inj h]
      exact .inr (.inl ⟨by simp, rfl, rfl, rfl⟩)
    · cases h

/-- The event ends a save that the job does not survive. -/
def savesFatally (cfg : CoordinatorConfig) (s : CoordinatedJob) : CoordinatorEvent → Bool
  | .fence =>
      match s.phase with
      | .checking trigger c =>
          trigger ≠ .saveNow && s.job.sched.generation = c.generation &&
            cfg.durability = .durable && !cfg.canSync
      | _ => false
  | e =>
      e.isFailure &&
        match s.phase with
        | .syncing trigger _ | .building trigger _ | .storing trigger _ _ => trigger ≠ .saveNow
        | _ => false

/-- A finished attempt installs its failure unless a worker waits for it. -/
theorem finishSave_job (s : CoordinatedJob) (trigger : SaveTrigger)
    (failure : Option DownloadError) :
    (s.finishSave trigger failure).job = s.job ∨
      trigger ≠ .saveNow ∧ ∃ e, failure = some e ∧
        (s.finishSave trigger failure).job = s.job.installFatal e := by
  rcases failure with - | e
  · exact .inl rfl
  cases trigger with
  | saveNow => exact .inl rfl
  | first => exact .inr ⟨by simp, e, rfl, rfl⟩
  | tick => exact .inr ⟨by simp, e, rfl, rfl⟩

/-- The end of a save leaves the job alone, or the event is one that ends it. -/
theorem finishSave_effect {e : CoordinatorEvent} {trigger : SaveTrigger}
    (failure : Option DownloadError)
    (hsave : trigger ≠ .saveNow → s.savesFatally cfg e = true) :
    (s.finishSave trigger failure).job = s.job ∨
      (s.finishSave trigger failure).job = s.job.reconcile cfg.job.workers ∨
      s.savesFatally cfg e = true ∧
        ∃ err, (s.finishSave trigger failure).job = s.job.installFatal err := by
  rcases s.finishSave_job trigger failure with hjob | ⟨htrigger, err, -, hjob⟩
  · exact .inl hjob
  · exact .inr (.inr ⟨hsave htrigger, err, hjob⟩)

/-- What an event of the coordinator does to the job. -/
theorem coordinatorStep_job {e : CoordinatorEvent} (h : s.coordinatorStep hash cfg e = some s') :
    s'.job = s.job ∨ s'.job = s.job.reconcile cfg.job.workers ∨
      s.savesFatally cfg e = true ∧ ∃ err, s'.job = s.job.installFatal err := by
  cases e with
  | begin trigger =>
    rcases coordinatorStep_cases h with ⟨t, -, -, rfl⟩ | ⟨hno, -⟩ | ⟨hno, -⟩ | ⟨_, _, _, hno, -⟩
    · right; left
      unfold beginSave
      simp only
      split_ifs <;> rfl
    · exact absurd rfl (hno trigger)
    · exact absurd rfl (hno trigger)
    · cases hno
  | fence =>
    simp only [coordinatorStep] at h
    split at h
    · rename_i trigger c hp
      split at h
      · rw [← Option.some.inj h]
        exact .inl rfl
      · rename_i hgen
        split at h
        · rename_i hdur
          split at h
          · rw [← Option.some.inj h]
            exact .inl rfl
          · rename_i hsync
            rw [← Option.some.inj h]
            refine finishSave_effect _ fun htrigger => ?_
            simp only [ne_eq, not_not] at hgen
            simp [savesFatally, hp, htrigger, hgen, hdur, hsync]
        · rw [← Option.some.inj h]
          exact .inl rfl
    · cases h
  | sync =>
    simp only [coordinatorStep] at h
    split at h
    · rw [← Option.some.inj h]
      exact .inl rfl
    · cases h
  | syncDone failure =>
    simp only [coordinatorStep] at h
    split at h
    · rename_i trigger c hp
      rcases failure with - | err
      · rw [← Option.some.inj h]
        exact .inl rfl
      · rw [← Option.some.inj h]
        refine finishSave_effect _ fun htrigger => ?_
        simp [savesFatally, CoordinatorEvent.isFailure, hp, htrigger]
    · cases h
  | build entry digestEntry now refusal =>
    simp only [coordinatorStep] at h
    split at h
    · rename_i trigger c hp
      rcases refusal with - | err
      · rw [← Option.some.inj h]
        exact .inl rfl
      · rw [← Option.some.inj h]
        refine finishSave_effect _ fun htrigger => ?_
        simp [savesFatally, CoordinatorEvent.isFailure, hp, htrigger]
    · cases h
  | stored failure =>
    simp only [coordinatorStep] at h
    split at h
    · rename_i trigger c cp hp
      rcases failure with - | err
      · rw [← Option.some.inj h]
        exact .inl rfl
      · rw [← Option.some.inj h]
        refine finishSave_effect _ fun htrigger => ?_
        simp [savesFatally, CoordinatorEvent.isFailure, hp, htrigger]
    · cases h
  | stop =>
    simp only [coordinatorStep] at h
    split at h
    · rw [← Option.some.inj h]
      exact .inl rfl
    · cases h

/-! ### The invariant -/

/-- The remembered revision and the candidate lie behind the scheduler, and the
candidate is newer. -/
structure Sound (cfg : CoordinatorConfig) (s : CoordinatedJob) : Prop where
  wellFormed : s.job.sched.ledger.WellFormed
  saved : ∀ r, s.lastSaved = some r → r.Behind s.job.sched ∧ r.validators = cfg.job.validators
  candidate : ∀ c, s.phase.candidate? = some c →
    c.Behind s.job.sched ∧ c.validators = cfg.job.validators ∧ c.ranges ≠ [] ∧
      ∀ r, s.lastSaved = some r → c.Newer r

theorem sound_init (cfg : CoordinatorConfig) : (coordinatedInit cfg).Sound cfg where
  wellFormed := SegmentScheduler.initialized_wellFormed _ _ _
  saved := by intro r h; cases h
  candidate := by intro c h; cases h

/-- Steps of the scheduler keep the invariant. -/
theorem Sound.advance (h : s.Sound cfg)
    (hsteps : Relation.ReflTransGen Ledger.Step s.job.sched.ledger s'.job.sched.ledger)
    (hsaved : s'.lastSaved = s.lastSaved)
    (hphase : s'.phase.candidate? = s.phase.candidate? ∨ s'.phase.candidate? = none) :
    s'.Sound cfg := by
  refine ⟨h.wellFormed.steps hsteps, fun r hr => ?_, fun c hc => ?_⟩
  · obtain ⟨hbehind, hval⟩ := h.saved r (hsaved ▸ hr)
    exact ⟨hbehind.steps h.wellFormed hsteps, hval⟩
  · rcases hphase with hphase | hphase
    · obtain ⟨hbehind, hval, hne, hnewer⟩ := h.candidate c (hphase ▸ hc)
      exact ⟨hbehind.steps h.wellFormed hsteps, hval, hne, fun r hr => hnewer r (hsaved ▸ hr)⟩
    · rw [hphase] at hc
      cases hc

theorem reconcile_steps (s : CoordinatedJob) (cfg : CoordinatorConfig) :
    Relation.ReflTransGen Ledger.Step s.job.sched.ledger
      (s.job.reconcile cfg.job.workers).sched.ledger :=
  s.job.sched.absorbWorkerProgress_steps _

theorem snapshot_behind (s : CoordinatedJob) (cfg : CoordinatorConfig) :
    (s.snapshot cfg).Behind (s.job.reconcile cfg.job.workers).sched :=
  ⟨SegmentScheduler.normalRanges_settledRanges _, fun _ hb => hb, le_rfl⟩

/-- A fresh snapshot is newer than what was saved, unless it is the same. -/
theorem Sound.snapshot_newer (h : s.Sound cfg) {r : SavedRevision} (hr : s.lastSaved = some r)
    (hne : s.lastSaved ≠ some (s.snapshot cfg)) : (s.snapshot cfg).Newer r := by
  obtain ⟨hbehind, hval⟩ := h.saved r hr
  have hlater := hbehind.steps h.wellFormed (s.reconcile_steps cfg)
  exact ⟨fun heq => hne (heq ▸ hr), hlater.settled, hlater.generation, hval⟩

theorem Sound.beginSave (h : s.Sound cfg) (trigger : SaveTrigger) :
    (s.beginSave cfg trigger).Sound cfg := by
  obtain ⟨hsched, hsaved, hphase⟩ := s.beginSave_spec cfg trigger
  have hsteps : Relation.ReflTransGen Ledger.Step s.job.sched.ledger
      (s.beginSave cfg trigger).job.sched.ledger := by
    rw [hsched]
    exact s.reconcile_steps cfg
  rcases hphase with ⟨-, hnone⟩ | ⟨hranges, hne, hphase⟩
  · exact h.advance hsteps hsaved (.inr hnone)
  · refine ⟨h.wellFormed.steps hsteps, fun r hr => ?_, fun c hc => ?_⟩
    · obtain ⟨hbehind, hval⟩ := h.saved r (hsaved ▸ hr)
      exact ⟨hbehind.steps h.wellFormed hsteps, hval⟩
    · rw [hphase] at hc
      obtain rfl : s.snapshot cfg = c := Option.some.inj hc
      refine ⟨?_, rfl, hranges, fun r hr => h.snapshot_newer (hsaved ▸ hr) hne⟩
      rw [hsched]
      exact s.snapshot_behind cfg

/-- **Every event keeps the invariant.** -/
theorem Sound.step (h : s.Sound cfg) {e : CoordinatedEvent}
    (hs : coordinatedStep hash cfg s e = some s') : s'.Sound cfg := by
  cases e with
  | segmented e =>
    obtain ⟨job, hjob, rfl⟩ := Option.map_eq_some_iff.mp hs
    exact h.advance (segmentedStep_steps hjob) rfl (.inl rfl)
  | coordinator e =>
    rcases coordinatorStep_cases hs with ⟨trigger, -, -, rfl⟩ | ⟨-, hnone, hsched, hsaved⟩ |
      ⟨-, hphase, hjob, hsaved⟩ | ⟨trigger, c, cp, -, hp, rfl⟩
    · exact h.beginSave trigger
    · exact h.advance (by rw [hsched]) hsaved (.inr hnone)
    · exact h.advance (by rw [hjob]) hsaved (.inl hphase)
    · -- the candidate becomes the remembered revision
      obtain ⟨hbehind, hval, -, -⟩ := h.candidate c (by rw [hp]; rfl)
      refine ⟨h.wellFormed, ?_, fun c' hc' => by cases hc'⟩
      rintro r ⟨⟩
      exact ⟨hbehind, hval⟩

/-! ### The order of snapshot, sync and store -/

/-- Execute events from the start of the job. -/
def execute (hash : List UInt8 → String) (cfg : CoordinatorConfig) (es : List CoordinatedEvent) :
    Option CoordinatedJob :=
  runEvents (coordinatedStep hash cfg) (coordinatedInit cfg) es

/-- In the history `es` a data sync was issued when all bytes of the ranges
were settled, and it succeeded. -/
def SyncedBefore (hash : List UInt8 → String) (cfg : CoordinatorConfig)
    (es : List CoordinatedEvent) (ranges : List ByteRange) : Prop :=
  ∃ before during after s₀,
    es = before ++ .coordinator .sync :: during ++ .coordinator (.syncDone none) :: after ∧
    (∀ e ∈ during, ∃ e', e = .segmented e') ∧
    execute hash cfg before = some s₀ ∧
    ∀ b, InRanges ranges b → InRanges s₀.job.sched.settledRanges b

theorem SyncedBefore.concat {es : List CoordinatedEvent} {ranges : List ByteRange}
    (h : SyncedBefore hash cfg es ranges) (e : CoordinatedEvent) :
    SyncedBefore hash cfg (es ++ [e]) ranges := by
  obtain ⟨before, during, after, s₀, rfl, hduring, hrun, hranges⟩ := h
  exact ⟨before, during, after ++ [e], s₀, by simp, hduring, hrun, hranges⟩

/-- What the history says about the save in progress. -/
def PhaseTraced (hash : List UInt8 → String) (cfg : CoordinatorConfig)
    (es : List CoordinatedEvent) : CoordinatorPhase → Prop
  | .syncing _ c =>
      ∃ before during s₀, es = before ++ .coordinator .sync :: during ∧
        (∀ e ∈ during, ∃ e', e = .segmented e') ∧ execute hash cfg before = some s₀ ∧
        ∀ b, InRanges c.ranges b → InRanges s₀.job.sched.settledRanges b
  | .building _ c => SyncedBefore hash cfg es c.ranges
  | .storing _ c cp => cp.completedRanges = c.ranges ∧ SyncedBefore hash cfg es c.ranges
  | _ => True

theorem phaseTraced_of_candidate_none {es : List CoordinatedEvent} {p : CoordinatorPhase}
    (h : p.candidate? = none) : PhaseTraced hash cfg es p := by
  cases p <;> trivial

/-- An event of the workers carries the history along. -/
theorem PhaseTraced.segmented {es : List CoordinatedEvent} {p : CoordinatorPhase}
    (h : PhaseTraced hash cfg es p) (e : SegmentedEvent) :
    PhaseTraced hash cfg (es ++ [.segmented e]) p := by
  cases p with
  | syncing trigger c =>
    obtain ⟨before, during, s₀, rfl, hduring, hrun, hranges⟩ := h
    refine ⟨before, during ++ [.segmented e], s₀, by simp, fun x hx => ?_, hrun, hranges⟩
    rcases List.mem_append.mp hx with hx | hx
    · exact hduring x hx
    · exact ⟨e, List.mem_singleton.mp hx⟩
  | building trigger c => exact SyncedBefore.concat h _
  | storing trigger c cp => exact ⟨h.1, h.2.concat _⟩
  | _ => trivial

/-- **In Durable mode every event keeps the order.** -/
theorem PhaseTraced.step (hdur : cfg.durability = .durable) {es : List CoordinatedEvent}
    (hrun : execute hash cfg es = some s) (hsound : s.Sound cfg)
    (h : PhaseTraced hash cfg es s.phase) {e : CoordinatedEvent}
    (hs : coordinatedStep hash cfg s e = some s') :
    PhaseTraced hash cfg (es ++ [e]) s'.phase := by
  cases e with
  | segmented e =>
    obtain ⟨job, -, rfl⟩ := Option.map_eq_some_iff.mp hs
    exact h.segmented e
  | coordinator e =>
    cases e with
    | begin trigger =>
      simp only [coordinatedStep] at hs
      rcases coordinatorStep_cases hs with ⟨t, -, -, rfl⟩ | ⟨hno, -⟩ | ⟨hno, -⟩ |
        ⟨_, _, _, hno, -⟩
      · rcases (s.beginSave_spec cfg t).2.2 with ⟨-, hnone⟩ | ⟨-, -, hp⟩
        · exact phaseTraced_of_candidate_none hnone
        · rw [hp]
          trivial
      · exact absurd rfl (hno trigger)
      · exact absurd rfl (hno trigger)
      · cases hno
    | fence =>
      simp only [coordinatedStep, coordinatorStep, hdur] at hs
      split at hs
      · split at hs
        · rw [← Option.some.inj hs]
          exact phaseTraced_of_candidate_none (s.finishSave_spec _ _).1
        · split at hs
          · rw [← Option.some.inj hs]
            trivial
          · rw [← Option.some.inj hs]
            exact phaseTraced_of_candidate_none (s.finishSave_spec _ _).1
      · cases hs
    | sync =>
      simp only [coordinatedStep, coordinatorStep] at hs
      split at hs
      · -- the candidate is still behind the scheduler when the sync is issued
        rename_i trigger c hp
        rw [← Option.some.inj hs]
        refine ⟨es, [], s, rfl, by simp, hrun, ?_⟩
        exact (hsound.candidate c (by rw [hp]; rfl)).1.settled
      · cases hs
    | syncDone failure =>
      simp only [coordinatedStep, coordinatorStep] at hs
      split at hs
      · rename_i trigger c hp
        rcases failure with - | err
        · rw [← Option.some.inj hs]
          rw [hp] at h
          obtain ⟨before, during, s₀, rfl, hduring, hbefore, hranges⟩ := h
          exact ⟨before, during, [], s₀, by simp, hduring, hbefore, hranges⟩
        · rw [← Option.some.inj hs]
          exact phaseTraced_of_candidate_none (s.finishSave_spec _ _).1
      · cases hs
    | build entry digestEntry now refusal =>
      simp only [coordinatedStep, coordinatorStep] at hs
      split at hs
      · rename_i trigger c hp
        rcases refusal with - | err
        · rw [← Option.some.inj hs]
          rw [hp] at h
          exact ⟨rfl, SyncedBefore.concat h _⟩
        · rw [← Option.some.inj hs]
          exact phaseTraced_of_candidate_none (s.finishSave_spec _ _).1
      · cases hs
    | stored failure =>
      simp only [coordinatedStep, coordinatorStep] at hs
      split at hs
      · rcases failure with - | err
        · rw [← Option.some.inj hs]
          trivial
        · rw [← Option.some.inj hs]
          exact phaseTraced_of_candidate_none (s.finishSave_spec _ _).1
      · cases hs
    | stop =>
      simp only [coordinatedStep, coordinatorStep] at hs
      split at hs
      · rw [← Option.some.inj hs]
        trivial
      · cases hs

/-! ### Failed saves -/

/-- The snapshot `c` was not saved, and no save is in progress. -/
structure Unsaved (cfg : CoordinatorConfig) (c : SavedRevision) (s : CoordinatedJob) : Prop where
  sound : s.Sound cfg
  behind : c.Behind s.job.sched
  nonempty : c.ranges ≠ []
  newer : ∀ r, s.lastSaved = some r → c.Newer r
  idle : s.phase.candidate? = none

/-- A failure ends the attempt with its snapshot unsaved and the remembered
revision as it was. -/
theorem unsaved_of_failure (h : s.Sound cfg) {c : SavedRevision}
    (hc : s.phase.candidate? = some c) {e : CoordinatorEvent} (hfail : e.isFailure = true)
    (hs : s.coordinatorStep hash cfg e = some s') :
    s'.Unsaved cfg c ∧ s'.lastSaved = s.lastSaved := by
  obtain ⟨hbehind, -, hne, hnewer⟩ := h.candidate c hc
  have hend : s'.phase.candidate? = none ∧ s'.job.sched = s.job.sched ∧
      s'.lastSaved = s.lastSaved := by
    cases e with
    | begin trigger => cases hfail
    | fence => cases hfail
    | sync => cases hfail
    | stop => cases hfail
    | syncDone failure =>
      rcases failure with - | err
      · cases hfail
      simp only [coordinatorStep] at hs
      split at hs
      · rw [← Option.some.inj hs]
        exact s.finishSave_spec _ _
      · cases hs
    | build entry digestEntry now refusal =>
      rcases refusal with - | err
      · cases hfail
      simp only [coordinatorStep] at hs
      split at hs
      · rw [← Option.some.inj hs]
        exact s.finishSave_spec _ _
      · cases hs
    | stored failure =>
      rcases failure with - | err
      · cases hfail
      simp only [coordinatorStep] at hs
      split at hs
      · rw [← Option.some.inj hs]
        exact s.finishSave_spec _ _
      · cases hs
  obtain ⟨hidle, hsched, hsaved⟩ := hend
  refine ⟨⟨h.advance (by rw [hsched]) hsaved (.inr hidle), ?_, hne, ?_, hidle⟩, hsaved⟩
  · rw [hsched]
    exact hbehind
  · rw [hsaved]
    exact hnewer

/-- Until the next save begins the snapshot stays unsaved. -/
theorem Unsaved.step {c : SavedRevision} (h : s.Unsaved cfg c) {e : CoordinatedEvent}
    (he : ∀ trigger, e ≠ .coordinator (.begin trigger))
    (hs : coordinatedStep hash cfg s e = some s') : s'.Unsaved cfg c := by
  have hsound := h.sound.step hs
  cases e with
  | segmented e =>
    obtain ⟨job, hjob, rfl⟩ := Option.map_eq_some_iff.mp hs
    exact ⟨hsound, h.behind.steps h.sound.wellFormed (segmentedStep_steps hjob), h.nonempty,
      h.newer, h.idle⟩
  | coordinator e =>
    simp only [coordinatedStep] at hs
    rcases coordinatorStep_cases hs with ⟨trigger, rfl, -, -⟩ | ⟨-, hnone, hsched, hsaved⟩ |
      ⟨-, hphase, hjob, hsaved⟩ | ⟨trigger, c', cp, -, hp, -⟩
    · exact absurd rfl (he trigger)
    · exact ⟨hsound, hsched ▸ h.behind, h.nonempty, hsaved ▸ h.newer, hnone⟩
    · exact ⟨hsound, hjob ▸ h.behind, h.nonempty, hsaved ▸ h.newer, hphase.trans h.idle⟩
    · have hidle := h.idle
      rw [hp] at hidle
      cases hidle

theorem Unsaved.run {c : SavedRevision} (h : s.Unsaved cfg c) {es : List CoordinatedEvent}
    (hes : ∀ e ∈ es, ∀ trigger, e ≠ .coordinator (.begin trigger))
    (hrun : runEvents (coordinatedStep hash cfg) s es = some s') : s'.Unsaved cfg c := by
  induction es generalizing s with
  | nil =>
    rw [← Option.some.inj hrun]
    exact h
  | cons e es ih =>
    obtain ⟨t, ht, hrest⟩ := Option.bind_eq_some_iff.mp hrun
    exact ih (h.step (hes e (List.mem_cons_self ..)) ht)
      (fun e' he' => hes e' (List.mem_cons_of_mem _ he')) hrest

/-- The next save takes a snapshot that covers the unsaved one and goes on with
it. -/
theorem Unsaved.retried {c : SavedRevision} (h : s.Unsaved cfg c) {trigger : SaveTrigger}
    (hs : s.coordinatorStep hash cfg (.begin trigger) = some s') :
    ∃ c', s'.phase = .checking trigger c' ∧ ∀ b, InRanges c.ranges b → InRanges c'.ranges b := by
  have hlater := h.behind.steps h.sound.wellFormed (s.reconcile_steps cfg)
  have hcovers : ∀ b, InRanges c.ranges b → InRanges (s.snapshot cfg).ranges b := hlater.settled
  rcases coordinatorStep_cases hs with ⟨t, ht, -, rfl⟩ | ⟨hno, -⟩ | ⟨hno, -⟩ |
    ⟨_, _, _, hno, -⟩
  · obtain rfl : trigger = t := CoordinatorEvent.begin.inj ht
    rcases (s.beginSave_spec cfg trigger).2.2 with ⟨hempty | hsame, -⟩ | ⟨-, -, hp⟩
    · -- the unsaved snapshot has a byte
      obtain ⟨r, hr⟩ := List.exists_mem_of_ne_nil _ h.nonempty
      obtain ⟨x, hx, -⟩ := hcovers r.1 ⟨r, hr, le_rfl, h.behind.normal.ordered r hr⟩
      rw [hempty] at hx
      cases hx
    · exact absurd rfl ((h.newer _ hsame).next h.behind.normal (h.sound.saved _ hsame).1.normal
        hcovers hlater.generation)
    · exact ⟨_, hp, hcovers⟩
  · exact absurd rfl (hno trigger)
  · exact absurd rfl (hno trigger)
  · cases hno

/-- Only a successful store advances what is remembered. -/
theorem lastSaved_step {e : CoordinatedEvent} (hs : coordinatedStep hash cfg s e = some s') :
    s'.lastSaved = s.lastSaved ∨
      ∃ trigger c cp, e = .coordinator (.stored none) ∧ s.phase = .storing trigger c cp ∧
        s'.lastSaved = some c := by
  cases e with
  | segmented e =>
    obtain ⟨job, -, rfl⟩ := Option.map_eq_some_iff.mp hs
    exact .inl rfl
  | coordinator e =>
    simp only [coordinatedStep] at hs
    rcases coordinatorStep_cases hs with ⟨trigger, -, -, rfl⟩ | ⟨-, -, -, hsaved⟩ |
      ⟨-, -, -, hsaved⟩ | ⟨trigger, c, cp, rfl, hp, rfl⟩
    · exact .inl (s.beginSave_spec cfg trigger).2.1
    · exact .inl hsaved
    · exact .inl hsaved
    · exact .inr ⟨trigger, c, cp, rfl, hp, rfl⟩

/-- **Durable checkpoint ordering.**  After every history of workers and
coordinator: what the store is called with was settled before a data sync
began that has succeeded since; no event but a successful store advances the
remembered revision; and after a failed sync, reservation or store, whatever
the workers do, the next save goes on with a snapshot that covers the failed
one. -/
theorem saves_ordered (hash : List UInt8 → String) (cfg : CoordinatorConfig)
    (hdur : cfg.durability = .durable) (es : List CoordinatedEvent) (s : CoordinatedJob)
    (hrun : execute hash cfg es = some s) :
    (∀ cp, s.handed = some cp → SyncedBefore hash cfg es cp.completedRanges) ∧
    (∀ e s', coordinatedStep hash cfg s e = some s' → s'.lastSaved = s.lastSaved ∨
      ∃ trigger c cp, e = .coordinator (.stored none) ∧ s.phase = .storing trigger c cp ∧
        s'.lastSaved = some c) ∧
    (∀ c e s₁, s.phase.candidate? = some c → e.isFailure = true →
      coordinatedStep hash cfg s (.coordinator e) = some s₁ →
      s₁.lastSaved = s.lastSaved ∧
      ∀ more s₂ trigger s₃, (∀ e ∈ more, ∀ t, e ≠ .coordinator (.begin t)) →
        runEvents (coordinatedStep hash cfg) s₁ more = some s₂ →
        coordinatedStep hash cfg s₂ (.coordinator (.begin trigger)) = some s₃ →
        ∃ c', s₃.phase = .checking trigger c' ∧
          ∀ b, InRanges c.ranges b → InRanges c'.ranges b) := by
  have hinit : (coordinatedInit cfg).Sound cfg ∧
      PhaseTraced hash cfg [] (coordinatedInit cfg).phase := ⟨sound_init cfg, trivial⟩
  obtain ⟨hsound, htraced⟩ := runEvents_invariant
    (I := fun es s => s.Sound cfg ∧ PhaseTraced hash cfg es s.phase) hinit
    (fun es s e s' hrun h hs => ⟨h.1.step hs, h.2.step hdur hrun h.1 hs⟩) hrun
  refine ⟨fun cp hcp => ?_, fun e s' => lastSaved_step, fun c e s₁ hc hfail hs => ?_⟩
  · unfold handed at hcp
    split at hcp
    · rename_i trigger c cp' hp
      obtain rfl : cp' = cp := Option.some.inj hcp
      rw [hp] at htraced
      rw [htraced.1]
      exact htraced.2
    · cases hcp
  · obtain ⟨hunsaved, hsaved⟩ := unsaved_of_failure hsound hc hfail hs
    refine ⟨hsaved, fun more s₂ trigger s₃ hmore hrun' hbegin => ?_⟩
    have hb : s₂.coordinatorStep hash cfg (.begin trigger) = some s₃ := hbegin
    exact (hunsaved.run hmore hrun').retried hb

/-- A durable job of eight bytes, two of them admitted for resume. -/
def resumedJob : CoordinatorConfig where
  job :=
    { totalSize := 8
      validators := ⟨some "v1", false, none, some 8⟩
      admitted := [(0, 1)]
      policy := .new 4 4
      retry := ⟨true, true, true, 3⟩
      workers := 1
      pipelined := false }
  durability := .durable
  canSync := true
  identity := "job"
  tempPath := "out.part"

/-- The first save, while a worker takes a lease between snapshot and sync. -/
def firstSave : List CoordinatedEvent :=
  [.coordinator (.begin .first), .coordinator .fence, .segmented (.worker 0 (.acquire 0 0)),
    .coordinator .sync, .coordinator (.syncDone none),
    .coordinator (.build none none "0" none)]

/-- The first save covers what was synced before it. -/
theorem firstSave_ordered :
    ∃ s cp, execute plainDigest resumedJob firstSave = some s ∧ s.handed = some cp ∧
      cp.completedRanges = [(0, 1)] ∧
      SyncedBefore plainDigest resumedJob firstSave cp.completedRanges :=
  ⟨_, _, rfl, rfl, rfl, (saves_ordered plainDigest resumedJob rfl firstSave _ rfl).1 _ rfl⟩

end CoordinatedJob

end KDown
