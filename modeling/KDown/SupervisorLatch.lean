/-
KDown/SupervisorLatch.lean

Terminal jobs.

Whether a job is terminal is looked at by the handlers, each for itself, and by
none of the writes they share.  Cancel, enqueue and promotion look and refuse,
and retry wants it so; but pause and resume do not look, the planner goes by
the listing it made before, a run that nobody tracks any more may end after its
job did, and a retry can fail after it has taken the version.  `latches`
excludes these, and then a terminal job keeps its status and its desired state
until it is removed or retried with success.

The registry is shared with the API, which removes the history of a job.  The
attempts of a removed job are left in place here: their ids are not used again,
and no handler finds a job through them.
-/
import KDown.SupervisorQueue

namespace KDown

/-! ### Steps with removal -/

/-- The supervisor acts, or the user clears the history. -/
inductive HistoryEvent
  | supervisor (e : SupervisorEvent)
  /-- The history of a job is removed. -/
  | remove (job : ℕ)

namespace Registry

/-- The row of the job is removed. -/
def removeJobHistory (r : Registry) (id : ℕ) : Registry := { r with jobs := r.jobs.erase id }

/-- Between the two registries a terminal job kept its status and what is
wanted of it. -/
def Latched (r r' : Registry) (job : ℕ) : Prop :=
  ∀ row, r.jobs.get? job = some row → row.status.isTerminal = true →
    ∃ row', r'.jobs.get? job = some row' ∧ row'.status = row.status ∧
      row'.desiredState = row.desiredState

variable {r r' r'' : Registry} {j : ℕ}

theorem Latched.refl (r : Registry) (j : ℕ) : r.Latched r j := fun row h _ => ⟨row, h, rfl, rfl⟩

theorem Latched.trans (h : r.Latched r' j) (h' : r'.Latched r'' j) : r.Latched r'' j := by
  intro row hrow hterm
  obtain ⟨row₁, h₁, hstatus, hdesired⟩ := h row hrow hterm
  obtain ⟨row₂, h₂, hstatus', hdesired'⟩ := h' row₁ h₁ (by rw [hstatus]; exact hterm)
  exact ⟨row₂, h₂, hstatus'.trans hstatus, hdesired'.trans hdesired⟩

/-- A change to another job. -/
theorem Touches.latched_of_ne {k : ℕ} (h : r.Touches r' k) (hne : j ≠ k) : r.Latched r' j :=
  fun row hrow _ => ⟨row, (h.others j hne).trans hrow, rfl, rfl⟩

/-- A job that is not terminal has nothing to keep. -/
theorem latched_of_open {row : JobRecord} (hrow : r.jobs.get? j = some row)
    (hopen : row.status.isTerminal = false) : r.Latched r' j := by
  intro row' hrow' hterm
  rw [hrow] at hrow'
  cases hrow'
  rw [hopen] at hterm
  cases hterm

theorem markStatus_ok {row : JobRecord} (hrow : r.jobs.get? j = some row)
    (hv : row.controlVersion < maxControlVersion) (status : DurableJobStatus) :
    r.markStatus j status = .ok (r.putJob j (withStatus row status)) := by
  unfold markStatus
  rw [hrow]
  exact if_pos hv

end Registry

namespace Actor

variable (key : ℕ)

/-- One event. -/
def historyStep (s : Actor) : HistoryEvent → Option Actor
  | .supervisor e => supervisorStep key s e
  | .remove job => some { s with registry := s.registry.removeJobHistory job }

/-- The command would find the version it expects. -/
def takesVersion (s : Actor) (job expected : ℕ) : Bool :=
  (s.registry.compareAndSetDesired job expected .running).isOk

/-- The attempt is unfinished and its job terminal. -/
def outlives (s : Actor) (attempt : ℕ) : Bool :=
  (s.registry.attempts[attempt]?).any fun record =>
    record.outcome.isNone && s.isTerminal record.jobId

/-- Pause and resume do not find a terminal job at the version they expect, a
retry that does is not refused afterwards, no run ends after its job, and the
planner does not mark a terminal job. -/
def latches (s : Actor) : HistoryEvent → Bool
  | .supervisor (.pause job expected _) | .supervisor (.resume job expected _) =>
      !(s.isTerminal job && s.takesVersion job expected)
  | .supervisor (.retry job expected refusal) =>
      !(s.isTerminal job && s.takesVersion job expected) ||
        ((s.full || refusal.isNone) && expected + 1 < maxControlVersion)
  | .supervisor (.completed _ attempt _ _) => !s.outlives attempt
  | .supervisor .recoverClassify =>
      s.recovery.head?.all fun entry => (planMark entry.2).isNone || !s.isTerminal entry.1
  | _ => true

/-- A removal of the job, or a retry of it that succeeds. -/
def revives (s : Actor) (job : ℕ) : HistoryEvent → Bool
  | .supervisor (.retry job' expected refusal) =>
      job' = job && (s.retry key job' expected refusal).1.isNone
  | .remove job' => job' = job
  | _ => false

/-! ### Who owns an attempt -/

variable {key} {s s' : Actor} {j : ℕ} {r' : Registry}

/-- The attempts the actor and the planner hold belong to the jobs they hold
them for. -/
structure Owns (s : Actor) : Prop where
  wellFormed : s.registry.WellFormed
  owned : ∀ job attempt, (job, attempt) ∈ s.completions → s.registry.Owned attempt job
  planned : ∀ entry ∈ s.recovery.head?, ∀ attempt, s.stage = .enqueue attempt →
    s.registry.Owned attempt entry.1

/-- What a handler does: it keeps the attempts owned, and every terminal job but
the exempted one as it is. -/
structure Keeps (s s' : Actor) (exempt : Option ℕ) : Prop where
  owns : s'.Owns
  latched : ∀ job, exempt ≠ some job → s.registry.Latched s'.registry job

variable {exempt : Option ℕ}

theorem Keeps.refl (h : s.Owns) : Keeps s s exempt := ⟨h, fun job _ => .refl _ job⟩

theorem Keeps.trans {s'' : Actor} (h : Keeps s s' exempt) (h' : Keeps s' s'' exempt) :
    Keeps s s'' exempt :=
  ⟨h'.owns, fun job hne => (h.latched job hne).trans (h'.latched job hne)⟩

/-- The registry changes at one job. -/
theorem Owns.touch (h : s.Owns) (htouch : s.registry.Touches r' j) (hwf : r'.WellFormed)
    (hlatch : exempt = some j ∨ s.registry.Latched r' j) :
    Keeps s { s with registry := r' } exempt := by
  refine ⟨⟨hwf, fun job a ha => htouch.owned (h.owned job a ha),
    fun entry hentry a ha => htouch.owned (h.planned entry hentry a ha)⟩, fun job hne => ?_⟩
  rcases eq_or_ne job j with rfl | hjob
  · exact hlatch.resolve_left hne
  · exact htouch.latched_of_ne hjob

theorem Owns.mark (h : s.Owns) {status : DurableJobStatus}
    (hmark : s.registry.markStatus j status = .ok r') {row : JobRecord}
    (hrow : s.registry.jobs.get? j = some row) (hopen : row.status.isTerminal = false) :
    Keeps s { s with registry := r' } exempt :=
  h.touch (Registry.touches_markStatus hmark) (h.wellFormed.markStatus hmark)
    (.inr (Registry.latched_of_open hrow hopen))

/-- The planner moves on, with no attempt waiting to be enqueued. -/
theorem Owns.plan (h : s.Owns) (recovery : List (ℕ × JobRecord)) {stage : RecoveryStage}
    (hstage : ∀ a, stage ≠ .enqueue a) :
    Owns { s with recovery := recovery, stage := stage } :=
  ⟨h.wellFormed, h.owned, fun _ _ a ha => absurd ha (hstage a)⟩

theorem Keeps.accept {answer : Option AppError × Actor} (h : Keeps s answer.2 exempt) :
    Keeps s (Actor.accept j answer) exempt := by
  unfold Actor.accept
  split
  · exact ⟨⟨h.owns.wellFormed, h.owns.owned, h.owns.planned⟩, h.latched⟩
  · exact h

theorem Keeps.recoverNext (h : Keeps s s' exempt) : Keeps s s'.recoverNext exempt :=
  ⟨h.owns.plan _ RecoveryStage.classify_ne, h.latched⟩

/-! ### Handlers -/

/-- A launch changes the job it launches and nothing of the others. -/
theorem Owns.launchJob (h : s.Owns) {record : JobRecord}
    (hjob : s.registry.jobs.get? j = some record) {prebound : Option ℕ}
    (hpre : ∀ a, prebound = some a → s.registry.Owned a j)
    (hlatch : exempt = some j ∨ record.status.isTerminal = false) (reason : AttemptReason)
    (refusal : Option AppError) : Keeps s (s.launchJob key j reason prebound refusal).2 exempt := by
  obtain ⟨r', heffect, hcases⟩ := launchJob_spec key hjob hpre reason refusal
  have htouched : Keeps s { s with registry := r' } exempt :=
    h.touch heffect.touches (heffect.wellFormed h.wellFormed)
      (hlatch.imp_right fun hopen => Registry.latched_of_open hjob hopen)
  rcases hcases with ⟨attempt, row, heq, -, -, howned, -⟩ | ⟨e, heq, -⟩ <;> rw [heq]
  · refine ⟨⟨htouched.owns.wellFormed, fun job a ha => ?_, htouched.owns.planned⟩,
      htouched.latched⟩
    rcases List.mem_append.mp ha with ha | ha
    · exact htouched.owns.owned job a ha
    · cases List.mem_singleton.mp ha
      exact howned
  · exact htouched

theorem Owns.enqueue (h : s.Owns) {prebound : Option ℕ}
    (hpre : ∀ a, prebound = some a → s.registry.Owned a j) (refusal : Option AppError) :
    Keeps s (s.enqueue key j prebound refusal).2 exempt := by
  rcases enqueue_cases key s j prebound refusal with
    ⟨e, heq⟩ | ⟨row, hrow, hopen, ⟨-, heq⟩ | ⟨-, heq⟩⟩ <;> rw [heq]
  · exact .refl h
  · exact ⟨⟨h.wellFormed, h.owned, h.planned⟩, fun job _ => .refl _ job⟩
  · exact h.launchJob hrow hpre (.inr hopen) .initial refusal

/-- The desired state moves, at a job that is not terminal or exempted. -/
theorem Owns.setDesired (h : s.Owns) (exempt : Option ℕ) {expected : ℕ} {desired : DesiredState}
    (hset : s.registry.compareAndSetDesired j expected desired = .ok r')
    (hlatch : exempt = some j ∨ s.isTerminal j = false) :
    Keeps s { s with registry := r' } exempt ∧
      ∃ row, r'.jobs.get? j = some row ∧ row.controlVersion = expected + 1 ∧
        row.status.isTerminal = s.isTerminal j := by
  obtain ⟨old, hold, hv, hr'⟩ := Registry.compareAndSetDesired_eq_ok hset
  have hterm : s.isTerminal j = old.status.isTerminal := by
    unfold isTerminal
    rw [hold]
    rfl
  refine ⟨h.touch (Registry.touches_compareAndSetDesired hset)
    (h.wellFormed.compareAndSetDesired hset) (hlatch.imp_right fun hopen => ?_), ?_⟩
  · exact Registry.latched_of_open hold (hterm ▸ hopen)
  · rw [hr']
    exact ⟨_, SortedMap.get?_insert_self .., rfl, hterm.symm⟩

/-- Whether the version is taken does not depend on what is wanted. -/
theorem takesVersion_of_ok {expected : ℕ} {desired : DesiredState}
    (hset : s.registry.compareAndSetDesired j expected desired = .ok r') :
    s.takesVersion j expected = true := by
  obtain ⟨row, hrow, hv, -⟩ := Registry.compareAndSetDesired_eq_ok hset
  have hcap : ¬ maxControlVersion ≤ expected := by
    intro hle
    rw [Registry.compareAndSetDesired, if_pos hle] at hset
    cases hset
  unfold takesVersion Registry.compareAndSetDesired
  simp only [if_neg hcap, hrow, if_pos hv]
  rfl

/-- Pause and resume at a version that no terminal job is at. -/
theorem Owns.control (h : s.Owns) {expected : ℕ} (desired : DesiredState)
    (status : DurableJobStatus) (refusal : Option AppError)
    (hok : (!(s.isTerminal j && s.takesVersion j expected)) = true) :
    Keeps s (s.control j expected desired status refusal).2 exempt := by
  rcases control_cases s j expected desired status refusal with ⟨e, heq⟩ | ⟨r₁, hset, hcases⟩
  · rw [heq]
    exact .refl h
  have hopen : s.isTerminal j = false := by
    rw [takesVersion_of_ok hset] at hok
    simpa using hok
  obtain ⟨hkeeps, row, hrow, -, hterm⟩ := h.setDesired exempt hset (.inr hopen)
  rcases hcases with ⟨e, heq⟩ | ⟨-, heq⟩ | ⟨-, r₂, hmark, heq⟩ <;> rw [heq]
  · exact hkeeps
  · exact hkeeps
  · exact hkeeps.trans (hkeeps.owns.mark hmark hrow (hterm.trans hopen))

theorem isTerminal_eq {row : JobRecord} (hrow : s.registry.jobs.get? j = some row) :
    s.isTerminal j = row.status.isTerminal := by
  unfold isTerminal
  rw [hrow]
  rfl

/-- Cancel refuses a terminal job. -/
theorem cancel_terminal (expected : ℕ) (refusal : Option AppError) (hterm : s.isTerminal j = true) :
    s.cancel j expected refusal = (some .invalidTransition, s) := by
  unfold isTerminal at hterm
  unfold cancel Registry.loadJob
  rcases hrow : s.registry.jobs.get? j with _ | row <;> rw [hrow] at hterm
  · cases hterm
  · exact if_pos hterm

/-- A cancellation changes no terminal job: it is refused for one. -/
theorem Owns.cancel (h : s.Owns) (expected : ℕ) (refusal : Option AppError) :
    Keeps s (s.cancel j expected refusal).2 exempt := by
  by_cases hterm : s.isTerminal j = true
  · rw [cancel_terminal expected refusal hterm]
    exact .refl h
  have hopen : s.isTerminal j = false := by simpa using hterm
  rcases cancel_cases s j expected refusal with ⟨e, heq⟩ | ⟨r₁, hset, hcases⟩
  · rw [heq]
    exact .refl h
  obtain ⟨hkeeps, row, hrow, -, hterm'⟩ := h.setDesired exempt hset (.inr hopen)
  rcases hcases with heq | ⟨-, r₂, hr₂, heq⟩ <;> rw [heq]
  · exact hkeeps
  · -- leaving the queue changes neither the records nor the attempts held
    have hmarked : Keeps s { s with registry := r₂ } exempt := by
      rcases hr₂ with rfl | hmark
      · exact hkeeps
      · exact hkeeps.trans (hkeeps.owns.mark hmark hrow (hterm'.trans hopen))
    exact ⟨⟨hmarked.owns.wellFormed, hmarked.owns.owned, hmarked.owns.planned⟩, hmarked.latched⟩

/-- A retry changes no other job. -/
theorem Owns.retry (h : s.Owns) (expected : ℕ) (refusal : Option AppError) :
    Keeps s (s.retry key j expected refusal).2 (some j) := by
  rcases retry_cases key s j expected refusal with
    ⟨e, heq⟩ | ⟨row, r₁, hrow, hterm, hset, hcases⟩
  · rw [heq]
    exact .refl h
  obtain ⟨hkeeps, row', hrow', -, -⟩ := h.setDesired (some j) hset (.inl rfl)
  rcases hcases with ⟨e, heq⟩ | ⟨-, r₂, hmark, heq⟩ | ⟨-, heq⟩ <;> rw [heq]
  · exact hkeeps
  · have hmarked : Keeps s { s with registry := r₂ } (some j) :=
      hkeeps.trans (hkeeps.owns.touch (Registry.touches_markStatus hmark)
        (hkeeps.owns.wellFormed.markStatus hmark) (.inl rfl))
    exact ⟨⟨hmarked.owns.wellFormed, hmarked.owns.owned, hmarked.owns.planned⟩, hmarked.latched⟩
  · exact hkeeps.trans (hkeeps.owns.launchJob hrow' (fun a ha => by cases ha) (.inl rfl) _ _)

/-- A retry that takes the version of a terminal job, finds a slot or the queue,
and has a version left succeeds. -/
theorem retry_succeeds {expected : ℕ} {refusal : Option AppError}
    (hterm : s.isTerminal j = true) (htakes : s.takesVersion j expected = true)
    (hslot : s.full = true ∨ refusal = none) (hroom : expected + 1 < maxControlVersion) :
    (s.retry key j expected refusal).1 = none := by
  unfold takesVersion at htakes
  rcases hset : s.registry.compareAndSetDesired j expected .running with e | r₁ <;>
    rw [hset] at htakes
  · cases htakes
  obtain ⟨old, hold, -, hr₁⟩ := Registry.compareAndSetDesired_eq_ok hset
  have hrow : r₁.jobs.get? j =
      some { old with desiredState := .running, controlVersion := expected + 1 } := by
    rw [hr₁]
    exact SortedMap.get?_insert_self ..
  rw [isTerminal_eq hold] at hterm
  unfold Actor.retry Registry.loadJob
  simp only [hold, hterm, hset, Bool.not_true, Bool.false_eq_true, if_false]
  by_cases hfull : s.full = true
  · have hfull' : full { s with registry := r₁ } = true := hfull
    rw [if_pos hfull', Registry.markStatus_ok hrow hroom]
  · have hfull' : ¬ full { s with registry := r₁ } = true := hfull
    rw [if_neg hfull', hslot.resolve_left hfull]
    -- the launch begins a new attempt and marks the job
    have hbegin : attemptFor key { s with registry := r₁ } j .retry none = _ :=
      Registry.beginAttemptOnce_fresh hrow .retry key
    unfold Actor.launchJob
    rw [hbegin]
    dsimp only
    rw [Registry.markStatus_ok (SortedMap.get?_insert_self ..) hroom]

/-! ### Completions -/

/-- A terminal job of the queue is dropped, or left for later. -/
theorem promoteOne_terminal {job : ℕ} (refusal : Option AppError) (hterm : s.isTerminal job = true) :
    s.promoteOne key job refusal = { s with queue := s.queue ++ [job] } ∨
      s.promoteOne key job refusal = s := by
  unfold isTerminal at hterm
  unfold Actor.promoteOne Registry.loadJob
  rcases hrow : s.registry.jobs.get? job with _ | row <;> rw [hrow] at hterm
  · cases hterm
  by_cases hfull : s.full = true
  · exact .inl (if_pos hfull)
  · rw [if_neg hfull]
    exact .inr (if_pos hterm)

/-- A job of the queue is launched or marked only if it is not terminal. -/
theorem Owns.promoteOne (h : s.Owns) (job : ℕ) (refusal : Option AppError) :
    Keeps s (s.promoteOne key job refusal) exempt := by
  have hpush : Keeps s { s with queue := s.queue ++ [job] } exempt :=
    ⟨⟨h.wellFormed, h.owned, h.planned⟩, fun job _ => .refl _ job⟩
  by_cases hterm : s.isTerminal job = true
  · rcases promoteOne_terminal refusal hterm with heq | heq <;> rw [heq]
    · exact hpush
    · exact .refl h
  have hopen : ∀ row, s.registry.jobs.get? job = some row → row.status.isTerminal = false := by
    intro row hrow
    rw [isTerminal_eq hrow] at hterm
    simpa using hterm
  rcases promoteOne_cases key s job refusal with
    ⟨heq, -⟩ | ⟨heq, -⟩ | ⟨-, registry, heq, hmark, row, hrow, -⟩ | ⟨-, row, hrow, -, -, heq⟩ <;>
    rw [heq]
  · exact hpush
  · exact .refl h
  · exact h.mark hmark hrow (hopen row hrow)
  · exact h.launchJob hrow (fun a ha => h.wellFormed job row a hrow ha) (.inr (hopen row hrow)) _ _

theorem Owns.promoteQueued (h : s.Owns) (refusals : ℕ → Option AppError) :
    Keeps s (s.promoteQueued key refusals) exempt := by
  have hstart : Keeps s { s with queue := [] } exempt :=
    ⟨⟨h.wellFormed, h.owned, h.planned⟩, fun job _ => .refl _ job⟩
  exact promoteLoop_invariant key (I := fun t _ => Keeps s t exempt) refusals
    (fun t job _ refusal ht => ht.trans (ht.owns.promoteOne job refusal)) 0 s.queue _ hstart

/-- A run ends whose job is not terminal, or whose attempt was finished before. -/
theorem Owns.finalize (h : s.Owns) {attempt : ℕ} (outcome : EngineOutcome)
    (refusals : ℕ → Option AppError) (howned : s.registry.Owned attempt j)
    (hok : (!s.outlives attempt) = true) :
    Keeps s (s.finalize key j attempt outcome refusals) exempt := by
  obtain ⟨record, hat, hjob⟩ := howned.exists
  have hrecord : Keeps s
      { s with registry := s.registry.recordOutcome attempt (s.attemptOutcome outcome) } exempt := by
    refine h.touch (Registry.touches_recordOutcome _ hat hjob)
      (h.wellFormed.recordOutcome hat _) (.inr ?_)
    rcases hfin : record.outcome with _ | o
    · -- the attempt is unfinished, so its job is not terminal
      have hopen : s.isTerminal j = false := by
        simp only [outlives, hat, Option.any_some, hfin, Option.isNone_none, Bool.true_and, hjob,
          Bool.not_eq_true'] at hok
        exact hok
      intro row hrow hterm
      rw [isTerminal_eq hrow, hterm] at hopen
      cases hopen
    · rw [Registry.recordOutcome_finished _ hat (by rw [hfin]; rfl)]
      exact .refl _ j
  have hended : Keeps s { s with
      registry := s.registry.recordOutcome attempt (s.attemptOutcome outcome)
      active := s.active.erase j } exempt :=
    ⟨⟨hrecord.owns.wellFormed, hrecord.owns.owned, hrecord.owns.planned⟩, hrecord.latched⟩
  exact hended.trans (hended.owns.promoteQueued refusals)

/-! ### The planner -/

/-- A mark the planner makes, at a job that is not terminal. -/
theorem Owns.recoverMark (h : s.Owns) {listed : JobRecord} {status : DurableJobStatus}
    {onward : Actor → Actor} (hok : listed.status ≠ status → s.isTerminal j = false)
    (honward : ∀ t, Keeps s t exempt → Keeps s (onward t) exempt) :
    Keeps s (s.recoverMark j listed status onward) exempt := by
  unfold Actor.recoverMark
  split_ifs with hlisted
  · exact honward s (.refl h)
  · rcases hmark : s.registry.markStatus j status with e | r₁
    · exact ⟨h.plan [] RecoveryStage.classify_ne, fun job _ => .refl _ job⟩
    · obtain ⟨row, hrow, -, -⟩ := Registry.markStatus_eq_ok hmark
      have hopen := hok hlisted
      rw [isTerminal_eq hrow] at hopen
      exact honward _ (h.mark hmark hrow hopen)

theorem Owns.recoverClassify (h : s.Owns) {listed : JobRecord}
    (hok : ((planMark listed).isNone || !s.isTerminal j) = true) :
    Keeps s (s.recoverClassify j listed) exempt := by
  unfold Actor.recoverClassify
  unfold planMark at hok
  split
  · next hclass =>
    rw [hclass] at hok
    refine h.recoverMark (fun hne => ?_) fun t ht => ⟨ht.owns.plan t.recovery nofun, ht.latched⟩
    simpa [hne] using hok
  · next hclass =>
    rw [hclass] at hok
    refine h.recoverMark (fun hne => ?_) fun t ht => ht.recoverNext
    simpa [hne] using hok
  · exact (Keeps.refl h).recoverNext

/-- Beginning an attempt changes neither status nor desired state. -/
theorem Owns.recoverBegin (h : s.Owns) {listed : JobRecord} {rest : List (ℕ × JobRecord)}
    (hhead : s.recovery = (j, listed) :: rest) : Keeps s (s.recoverBegin key j) exempt := by
  rcases recoverBegin_cases key s j with
    heq | heq | ⟨-, row, attempt, r', hrow, hget, htouch, hwf, hopen, heq⟩ <;> rw [heq]
  · exact ⟨h.plan [] RecoveryStage.classify_ne, fun job _ => .refl _ job⟩
  · exact (Keeps.refl h).recoverNext
  have hkeeps : Keeps s { s with registry := r' } exempt := by
    refine h.touch htouch (hwf h.wellFormed) (.inr fun row' hrow' _ => ?_)
    rw [hrow] at hrow'
    cases hrow'
    exact ⟨_, hget, rfl, rfl⟩
  refine ⟨⟨hkeeps.owns.wellFormed, hkeeps.owns.owned, fun entry hentry a hstage => ?_⟩,
    hkeeps.latched⟩
  cases hstage
  rw [hhead] at hentry
  cases hentry
  exact hopen.owned

/-! ### Runs -/

theorem Owns.remove (h : s.Owns) (job : ℕ) :
    Keeps s { s with registry := s.registry.removeJobHistory job } (some job) := by
  refine ⟨⟨fun k row a hrow ha => ?_, h.owned, h.planned⟩, fun k hne row hrow _ => ?_⟩
  · rw [Registry.removeJobHistory, SortedMap.get?_erase] at hrow
    split_ifs at hrow
    exact h.wellFormed k row a hrow ha
  · have hk : k ≠ job := fun heq => hne (heq ▸ rfl)
    refine ⟨row, ?_, rfl, rfl⟩
    rw [Registry.removeJobHistory, SortedMap.get?_erase_of_ne _ hk]
    exact hrow

/-- A retry that fails leaves a terminal job as it is. -/
theorem retry_failed {expected : ℕ} {refusal : Option AppError}
    (hok : s.latches (.supervisor (.retry j expected refusal)) = true)
    (hfail : (s.retry key j expected refusal).1.isNone = false) :
    s.registry.Latched (s.retry key j expected refusal).2.registry j := by
  intro row hrow hterm
  rcases retry_cases key s j expected refusal with ⟨e, heq⟩ | ⟨row', r₁, -, -, hset, -⟩
  · rw [heq]
    exact ⟨row, hrow, rfl, rfl⟩
  · -- the version is taken, so by the condition the retry cannot have failed
    have hterm' : s.isTerminal j = true := (isTerminal_eq hrow).trans hterm
    have htakes := takesVersion_of_ok hset
    simp only [latches, hterm', htakes, Bool.and_self, Bool.not_true, Bool.false_or,
      Bool.and_eq_true, Bool.or_eq_true, Option.isNone_iff_eq_none, decide_eq_true_eq] at hok
    rw [retry_succeeds hterm' htakes hok.1 hok.2] at hfail
    cases hfail

/-- Every step keeps the attempts owned, and the terminal jobs it does not
revive as they are. -/
theorem Owns.step (h : s.Owns) {e : HistoryEvent} (hok : s.latches e = true)
    (hs : s.historyStep key e = some s') :
    s'.Owns ∧ ∀ job, s.revives key job e = false → s.registry.Latched s'.registry job := by
  have hnone : Keeps s s' none →
      s'.Owns ∧ ∀ job, s.revives key job e = false → s.registry.Latched s'.registry job :=
    fun hkeeps => ⟨hkeeps.owns, fun job _ => hkeeps.latched job nofun⟩
  cases e with
  | remove job =>
    rw [← Option.some.inj hs]
    refine ⟨(h.remove job).owns, fun k hk => (h.remove job).latched k ?_⟩
    rintro ⟨⟩
    simp [revives] at hk
  | supervisor e =>
    cases e with
    | insertJob job =>
      simp only [historyStep, supervisorStep] at hs
      split_ifs at hs with hin
      cases hs
      have hfresh := (get?_of_not_knows hin).1
      refine hnone (h.touch (Registry.touches_putJob fun old hold => ?_)
        (h.wellFormed.insertJob job) (.inr fun row hrow => ?_))
      · rw [hfresh] at hold
        cases hold
      · rw [hfresh] at hrow
        cases hrow
    | enqueue job refusal =>
      cases hs
      exact hnone (h.enqueue (fun _ ha => by cases ha) refusal).accept
    | pause job expected refusal =>
      cases hs
      exact hnone (h.control .paused .paused refusal hok)
    | resume job expected refusal =>
      cases hs
      exact hnone (h.control .running .active refusal hok).accept
    | cancel job expected refusal =>
      cases hs
      exact hnone (h.cancel expected refusal)
    | retry job expected refusal =>
      cases hs
      have hretry : Keeps s (s.retry key job expected refusal).2 (some job) :=
        h.retry expected refusal
      have hkeeps := hretry.accept (j := job)
      refine ⟨hkeeps.owns, fun k hk => ?_⟩
      rcases eq_or_ne k job with rfl | hne
      · have hfail : (s.retry key k expected refusal).1.isNone = false := by
          simpa [revives] using hk
        have hlatched := retry_failed hok hfail
        unfold accept
        split <;> exact hlatched
      · exact hkeeps.latched k fun heq => hne (Option.some.inj heq).symm
    | updateLimits activeDownloads | shutdown =>
      cases hs
      exact hnone ⟨⟨h.wellFormed, h.owned, h.planned⟩, fun job _ => .refl _ job⟩
    | completed job attempt outcome refusals =>
      simp only [historyStep, supervisorStep] at hs
      split_ifs at hs with hmem
      cases hs
      have hended : Keeps s { s with completions := s.completions.erase (job, attempt) } none :=
        ⟨⟨h.wellFormed, fun k a ha => h.owned k a (List.mem_of_mem_erase ha), h.planned⟩,
          fun k _ => .refl _ k⟩
      exact hnone (hended.trans
        (hended.owns.finalize outcome refusals (h.owned job attempt hmem) hok))
    | recoverList =>
      simp only [historyStep, supervisorStep] at hs
      split_ifs at hs
      cases hs
      exact hnone ⟨h.plan _ RecoveryStage.classify_ne, fun job _ => .refl _ job⟩
    | recoverClassify =>
      simp only [historyStep, supervisorStep] at hs
      split at hs <;> cases hs
      next hhead _ =>
      simp only [latches, hhead, List.head?_cons, Option.all_some] at hok
      exact hnone (h.recoverClassify hok)
    | recoverBegin =>
      simp only [historyStep, supervisorStep] at hs
      split at hs <;> cases hs
      next hhead _ =>
      exact hnone (h.recoverBegin hhead)
    | recoverEnqueue refusal =>
      simp only [historyStep, supervisorStep] at hs
      split at hs <;> cases hs
      next job listed rest attempt hhead hstage =>
      have hentry : (job, listed) ∈ s.recovery.head? := by rw [hhead]; rfl
      refine hnone ((h.enqueue ?_ refusal).accept.recoverNext)
      rintro a ⟨rfl⟩
      exact h.planned _ hentry attempt hstage

theorem Owns.start (h : s.Starts) : s.Owns where
  wellFormed := h.wellFormed
  owned job attempt hmem := by
    rw [h.completions] at hmem
    cases hmem
  planned entry hentry := by
    rw [h.recovery] at hentry
    cases hentry

theorem run_latched {es : List HistoryEvent} {job : ℕ} (h : s.Owns)
    (hok : runOk (historyStep key)
      (fun s e => s.latches e = true ∧ s.revives key job e = false) s es)
    (hrun : runEvents (historyStep key) s es = some s') :
    s.registry.Latched s'.registry job := by
  induction es generalizing s with
  | nil =>
    rw [← Option.some.inj hrun]
    exact .refl _ job
  | cons e es ih =>
    obtain ⟨t, ht, hrest⟩ := Option.bind_eq_some_iff.mp hrun
    obtain ⟨howns, hlatched⟩ := h.step hok.1.1 ht
    exact (hlatched job hok.1.2).trans (ih howns (hok.2 t ht) hrest)

end Actor

/-- **Terminal jobs latch.**  From every state of a run whose steps all meet
`latches`, a job that is terminal keeps its status and its desired state for as
long as it is neither removed nor retried with success. -/
theorem terminal_jobs_latch (key : ℕ) {s s' : Actor} {es : List HistoryEvent} {job : ℕ}
    {row : JobRecord}
    (h : Reach (Actor.historyStep key) (fun s e => s.latches e = true) Actor.Starts s)
    (hrow : s.registry.jobs.get? job = some row) (hterm : row.status.isTerminal = true)
    (hok : runOk (Actor.historyStep key)
      (fun s e => s.latches e = true ∧ s.revives key job e = false) s es)
    (hrun : runEvents (Actor.historyStep key) s es = some s') :
    ∃ row', s'.registry.jobs.get? job = some row' ∧ row'.status = row.status ∧
      row'.desiredState = row.desiredState := by
  have howns : s.Owns :=
    Reach.invariant (fun _ h₀ => .start h₀) (fun s₁ e s₂ h₁ hok hs => (h₁.step hok hs).1) h
  exact Actor.run_latched howns hok hrun row hrow hterm

/-- One job, created, launched and completed. -/
def finishedJob : List HistoryEvent :=
  [.supervisor (.insertJob 0), .supervisor (.enqueue 0 none),
    .supervisor (.completed 0 0 .completed fun _ => none)]

/-- Commands that find it terminal: a cancel at its version, a pause and a retry
at another. -/
def lateCommands : List HistoryEvent :=
  [.supervisor (.cancel 0 3 none), .supervisor (.pause 0 2 none), .supervisor (.retry 0 2 none)]

/-- A completed job stays completed, whatever is asked of it. -/
theorem terminal_jobs_latch_finished :
    ∃ s s' row', runEvents (Actor.historyStep 0) (.fresh 1) finishedJob = some s ∧
      runEvents (Actor.historyStep 0) s lateCommands = some s' ∧
      s'.registry.jobs.get? 0 = some row' ∧ row'.status = .completed ∧
      row'.desiredState = .running := by
  have hend : ((runEvents (Actor.historyStep 0) (.fresh 1) finishedJob).map fun s =>
      (s.registry.jobs.get? 0, (runEvents (Actor.historyStep 0) s lateCommands).isSome,
        decide (runOk (Actor.historyStep 0)
          (fun s e => s.latches e = true ∧ s.revives 0 0 e = false) s lateCommands))) =
      some (some ⟨.running, .completed, 3, some 0⟩, true, true) := by decide
  obtain ⟨s, hrun, hs⟩ := Option.map_eq_some_iff.mp hend
  obtain ⟨hrow, hs⟩ := Prod.mk.inj hs
  obtain ⟨hlate, hok⟩ := Prod.mk.inj hs
  obtain ⟨s', hrun'⟩ := Option.isSome_iff_exists.mp hlate
  have hreach : Reach (Actor.historyStep 0) (fun s e => s.latches e = true) Actor.Starts s :=
    .of_run (.start (Actor.starts_fresh 1)) (by decide) hrun
  obtain ⟨row', hrow', hstatus, hdesired⟩ :=
    terminal_jobs_latch 0 hreach hrow rfl (of_decide_eq_true hok) hrun'
  exact ⟨s, s', row', hrun, hrun', hrow', hstatus, hdesired⟩

/-- A job cancelled between the planner's listing and its mark. -/
def cancelledInPass : List HistoryEvent :=
  [.supervisor (.insertJob 0), .supervisor .recoverList, .supervisor (.cancel 0 1 none)]

/-- A job that completed is paused, and a job that was cancelled while the
planner was at work is marked recovering. -/
theorem terminal_jobs_changed :
    (∃ s s' row row', Reach (Actor.historyStep 0) (fun _ _ => True) Actor.Starts s ∧
      s.registry.jobs.get? 0 = some row ∧ row.status = .completed ∧
      s.historyStep 0 (.supervisor (.pause 0 3 none)) = some s' ∧
      s'.registry.jobs.get? 0 = some row' ∧ row.desiredState = .running ∧
      row'.desiredState = .paused) ∧
    ∃ s s' row row', Reach (Actor.historyStep 0) (fun _ _ => True) Actor.Starts s ∧
      s.registry.jobs.get? 0 = some row ∧ row.status = .cancelled ∧
      s.historyStep 0 (.supervisor .recoverClassify) = some s' ∧
      s'.registry.jobs.get? 0 = some row' ∧ row'.status = .recovering := by
  constructor
  · have hend : ((runEvents (Actor.historyStep 0) (.fresh 1) finishedJob).map fun s =>
        (s.registry.jobs.get? 0, (s.historyStep 0 (.supervisor (.pause 0 3 none))).map fun s' =>
          s'.registry.jobs.get? 0)) =
        some (some ⟨.running, .completed, 3, some 0⟩,
          some (some ⟨.paused, .completed, 4, some 0⟩)) := by decide
    obtain ⟨s, hrun, hs⟩ := Option.map_eq_some_iff.mp hend
    obtain ⟨hrow, hpause⟩ := Prod.mk.inj hs
    obtain ⟨s', hs', hrow'⟩ := Option.map_eq_some_iff.mp hpause
    exact ⟨s, s', _, _, .of_run (.start (Actor.starts_fresh 1)) runOk_true hrun, hrow, rfl, hs',
      hrow', rfl, rfl⟩
  · have hend : ((runEvents (Actor.historyStep 0) (.fresh 1) cancelledInPass).map fun s =>
        (s.registry.jobs.get? 0, (s.historyStep 0 (.supervisor .recoverClassify)).map fun s' =>
          s'.registry.jobs.get? 0)) =
        some (some ⟨.cancelled, .cancelled, 3, none⟩,
          some (some ⟨.cancelled, .recovering, 4, none⟩)) := by decide
    obtain ⟨s, hrun, hs⟩ := Option.map_eq_some_iff.mp hend
    obtain ⟨hrow, hmark⟩ := Prod.mk.inj hs
    obtain ⟨s', hs', hrow'⟩ := Option.map_eq_some_iff.mp hmark
    exact ⟨s, s', _, _, .of_run (.start (Actor.starts_fresh 1)) runOk_true hrun, hrow, rfl, hs',
      hrow', rfl⟩

end KDown
