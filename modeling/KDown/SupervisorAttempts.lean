/-
KDown/SupervisorAttempts.lean

Engine runs and the attempts they run under.

A run is launched under an attempt; when it ends, its outcome is recorded on
that attempt, and the attempt's job takes the matching status.  Recording is
refused for an attempt that is finished already, and the actor ignores the
refusal.  So the attempt of every live run has to stay open until the run ends.

A promoted job is launched under its current attempt, whatever became of it.
`bindsAttempts` excludes the ways to get a finished or shared attempt there: a
job joins the queue with a finished current attempt (a retry while no slot is
open), while it has a run, or while it is queued; or recovery interrupts or
reuses the attempt of a live run.
-/
import KDown.SupervisorRuns

namespace KDown

namespace Actor

variable {key : ℕ} {s : Actor} {j : ℕ} {r' : Registry} {answer : Option AppError × Actor}

/-! ### The condition -/

/-- The job's current attempt is finished. -/
def currentFinished (s : Actor) (job : ℕ) : Bool :=
  (s.registry.jobs.get? job).any fun row => row.currentAttemptId.any fun attempt =>
    (s.registry.attempts[attempt]?).any fun record => record.outcome.isSome

/-- The job is over. -/
def isTerminal (s : Actor) (job : ℕ) : Bool :=
  (s.registry.jobs.get? job).any fun row => row.status.isTerminal

/-- The attempt is not carried by a live run. -/
def notLive (s : Actor) (attempt : ℕ) : Prop := ∀ run ∈ s.completions, run.2 ≠ attempt

/-- A job is admitted only while it is not queued, and it joins the queue only
without a run and without a finished attempt. -/
def admits (s : Actor) (job : ℕ) : Prop :=
  s.shuttingDown = true ∨
    job ∉ s.queue ∧ (s.full = true →
      (∀ run ∈ s.completions, run.1 ≠ job) ∧ s.currentFinished job = false)

/-- The attempt the planner is about to enqueue is unfinished and not carried by
a live run. -/
def plannedFree (s : Actor) : Prop :=
  match s.stage with
  | .enqueue attempt =>
      (s.registry.attempts[attempt]?).any (fun record => record.outcome.isNone) = true ∧
        s.notLive attempt
  | _ => True

/-- No command or planner step brings a finished or a shared attempt to a
launch. -/
def bindsAttempts (key : ℕ) (s : Actor) : SupervisorEvent → Prop
  | .enqueue job _ => s.isTerminal job = false → s.admits job
  | .retry job expected _ =>
      s.isTerminal job = true →
      (s.registry.compareAndSetDesired job expected .running).isOk = true → s.admits job
  | .recoverBegin =>
      ∀ entry ∈ s.recovery.head?, s.registry.attemptByLaunchKey entry.1 key = none →
        ∀ run ∈ s.completions, run.1 ≠ entry.1
  | .recoverEnqueue _ =>
      ∀ entry ∈ s.recovery.head?, s.isTerminal entry.1 = false →
        s.admits entry.1 ∧ (s.full = false → s.plannedFree)
  | _ => True

instance (s : Actor) (attempt : ℕ) : Decidable (s.notLive attempt) :=
  inferInstanceAs (Decidable (∀ run ∈ s.completions, run.2 ≠ attempt))

instance (s : Actor) (job : ℕ) : Decidable (s.admits job) :=
  inferInstanceAs (Decidable (s.shuttingDown = true ∨
    job ∉ s.queue ∧ (s.full = true →
      (∀ run ∈ s.completions, run.1 ≠ job) ∧ s.currentFinished job = false)))

instance (s : Actor) : Decidable s.plannedFree := by
  unfold plannedFree
  split <;> infer_instance

instance (key : ℕ) (s : Actor) : (e : SupervisorEvent) → Decidable (s.bindsAttempts key e)
  | .enqueue job _ => inferInstanceAs (Decidable (s.isTerminal job = false → s.admits job))
  | .retry job expected _ =>
      inferInstanceAs (Decidable (s.isTerminal job = true →
        (s.registry.compareAndSetDesired job expected .running).isOk = true → s.admits job))
  | .recoverBegin =>
      inferInstanceAs (Decidable (∀ entry ∈ s.recovery.head?,
        s.registry.attemptByLaunchKey entry.1 key = none →
          ∀ run ∈ s.completions, run.1 ≠ entry.1))
  | .recoverEnqueue _ =>
      inferInstanceAs (Decidable (∀ entry ∈ s.recovery.head?, s.isTerminal entry.1 = false →
        s.admits entry.1 ∧ (s.full = false → s.plannedFree)))
  | .insertJob _ | .pause _ _ _ | .resume _ _ _ | .cancel _ _ _ | .updateLimits _
  | .completed _ _ _ _ | .shutdown | .recoverList | .recoverClassify => .isTrue trivial

/-! ### The invariant -/

/-- The attempts of live runs are open and distinct, and those of queued jobs
are open. -/
structure BoundRuns (s : Actor) : Prop where
  wellFormed : s.registry.WellFormed
  live : ∀ job attempt, (job, attempt) ∈ s.completions → s.registry.Open attempt job
  distinct : (s.completions.map Prod.snd).Nodup
  active : ∀ job attempt, s.active.get? job = some attempt → (job, attempt) ∈ s.completions
  queue_nodup : s.shuttingDown = false → s.queue.Nodup
  queued_out : s.shuttingDown = false → ∀ job ∈ s.queue, ∀ run ∈ s.completions, run.1 ≠ job
  queued_open : s.shuttingDown = false → ∀ job ∈ s.queue, ∀ row attempt,
    s.registry.jobs.get? job = some row → row.currentAttemptId = some attempt →
    s.registry.Open attempt job
  planned : ∀ entry ∈ s.recovery.head?, ∀ attempt, s.stage = .enqueue attempt →
    s.registry.Owned attempt entry.1
  launched : ∀ l ∈ s.launches, ∃ record, l.record = some record ∧ record.jobId = l.job ∧
    record.outcome = none
  /-- An active job that was launched has a live run. -/
  settled : s.shuttingDown = false → ∀ job row, s.registry.jobs.get? job = some row →
    row.status = .active → row.controlVersion < maxControlVersion →
    (∃ l ∈ s.launches, l.job = job) → ∃ attempt, (job, attempt) ∈ s.completions

/-- An open current attempt, from one that is not finished. -/
theorem open_of_not_finished (hwf : s.registry.WellFormed) {row : JobRecord} {attempt : ℕ}
    (hrow : s.registry.jobs.get? j = some row) (hcur : row.currentAttemptId = some attempt)
    (hfin : s.currentFinished j = false) : s.registry.Open attempt j := by
  obtain ⟨record, hrec, hjob⟩ := (hwf j row attempt hrow hcur).exists
  refine ⟨record, hrec, hjob, ?_⟩
  simpa [currentFinished, hrow, hcur, hrec] using hfin

namespace BoundRuns

/-- A change of one job's records. -/
theorem touch (h : s.BoundRuns) (htouch : s.registry.Touches r' j) (hwf : r'.WellFormed)
    (hlive : ∀ attempt, (j, attempt) ∈ s.completions → r'.Open attempt j)
    (hqueued : s.shuttingDown = false → j ∈ s.queue → ∀ row attempt,
      r'.jobs.get? j = some row → row.currentAttemptId = some attempt → r'.Open attempt j)
    (hsettled : s.shuttingDown = false → ∀ row, r'.jobs.get? j = some row →
      row.status = .active → row.controlVersion < maxControlVersion →
      (∃ l ∈ s.launches, l.job = j) → ∃ attempt, (j, attempt) ∈ s.completions) :
    BoundRuns { s with registry := r' } where
  wellFormed := hwf
  live k a hmem := by
    rcases eq_or_ne k j with rfl | hne
    · exact hlive a hmem
    · exact htouch.open_of_ne (h.live k a hmem) hne
  distinct := h.distinct
  active := h.active
  queue_nodup := h.queue_nodup
  queued_out := h.queued_out
  queued_open hrun k hk row a hrow hcur := by
    rcases eq_or_ne k j with rfl | hne
    · exact hqueued hrun hk row a hrow hcur
    · rw [htouch.others k hne] at hrow
      exact htouch.open_of_ne (h.queued_open hrun k hk row a hrow hcur) hne
  planned entry hentry a hstage := htouch.owned (h.planned entry hentry a hstage)
  launched := h.launched
  settled hrun k row hrow := by
    rcases eq_or_ne k j with rfl | hne
    · exact hsettled hrun row hrow
    · rw [htouch.others k hne] at hrow
      exact h.settled hrun k row hrow

/-- A job's record changed, but neither its attempts nor its current one. -/
theorem putJob (h : s.BoundRuns) {old row : JobRecord} (hold : s.registry.jobs.get? j = some old)
    (hcur : row.currentAttemptId = old.currentAttemptId)
    (hversion : old.controlVersion ≤ row.controlVersion)
    (hsettled : row.status = .active → old.status = .active ∨
      ∃ attempt, (j, attempt) ∈ s.completions) :
    BoundRuns { s with registry := s.registry.putJob j row } := by
  have hget : (s.registry.putJob j row).jobs.get? j = some row :=
    SortedMap.get?_insert_self ..
  refine h.touch (Registry.touches_putJob fun old' hold' => ?_) (h.wellFormed.putJob hold hcur)
    (h.live j) (fun hrun hin row' a hrow' ha => ?_) fun hrun row' hrow' hact hv hl => ?_
  · rw [hold] at hold'
    cases hold'
    exact hversion
  · rw [hget] at hrow'
    cases hrow'
    exact h.queued_open hrun j hin old a hold (hcur ▸ ha)
  · rw [hget] at hrow'
    cases hrow'
    rcases hsettled hact with hold' | hlive
    · exact h.settled hrun j old hold hold' (lt_of_le_of_lt hversion hv) hl
    · exact hlive

/-- A milestone; a job may be marked active only with a live run. -/
theorem markStatus (h : s.BoundRuns) {status : DurableJobStatus}
    (hmark : s.registry.markStatus j status = .ok r')
    (hactive : status = .active → ∃ attempt, (j, attempt) ∈ s.completions) :
    BoundRuns { s with registry := r' } := by
  obtain ⟨old, hold, -, rfl⟩ := Registry.markStatus_eq_ok hmark
  exact h.putJob hold rfl (Nat.le_succ _) fun hact => .inr (hactive hact)

theorem setDesired (h : s.BoundRuns) {expected : ℕ} {desired : DesiredState}
    (hset : s.registry.compareAndSetDesired j expected desired = .ok r') :
    BoundRuns { s with registry := r' } := by
  obtain ⟨old, hold, hv, rfl⟩ := Registry.compareAndSetDesired_eq_ok hset
  exact h.putJob hold rfl (hv ▸ Nat.le_succ _) .inl

/-- A job without a run and with no finished attempt joins the queue. -/
theorem push (h : s.BoundRuns)
    (hout : s.shuttingDown = false → j ∉ s.queue ∧ ∀ run ∈ s.completions, run.1 ≠ j)
    (hopen : s.shuttingDown = false → ∀ row attempt, s.registry.jobs.get? j = some row →
      row.currentAttemptId = some attempt → s.registry.Open attempt j) :
    BoundRuns { s with queue := s.queue ++ [j] } where
  wellFormed := h.wellFormed
  live := h.live
  distinct := h.distinct
  active := h.active
  queue_nodup hrun := by
    rw [← List.concat_eq_append]
    exact (h.queue_nodup hrun).concat (hout hrun).1
  queued_out hrun k hk := by
    rcases List.mem_append.mp hk with hk | hk
    · exact h.queued_out hrun k hk
    · rw [List.mem_singleton.mp hk]
      exact (hout hrun).2
  queued_open hrun k hk := by
    rcases List.mem_append.mp hk with hk | hk
    · exact h.queued_open hrun k hk
    · rw [List.mem_singleton.mp hk]
      exact hopen hrun
  planned := h.planned
  launched := h.launched
  settled := h.settled

theorem shrink (h : s.BoundRuns) {queue : List ℕ} (hsub : queue.Sublist s.queue) :
    BoundRuns { s with queue := queue } where
  wellFormed := h.wellFormed
  live := h.live
  distinct := h.distinct
  active := h.active
  queue_nodup hrun := (h.queue_nodup hrun).sublist hsub
  queued_out hrun k hk := h.queued_out hrun k (hsub.subset hk)
  queued_open hrun k hk := h.queued_open hrun k (hsub.subset hk)
  planned := h.planned
  launched := h.launched
  settled := h.settled

theorem accept (h : BoundRuns answer.2) : (Actor.accept j answer).BoundRuns := by
  unfold Actor.accept
  split
  · exact ⟨h.wellFormed, h.live, h.distinct, h.active, h.queue_nodup, h.queued_out, h.queued_open,
      h.planned, h.launched, h.settled⟩
  · exact h

theorem plan (h : s.BoundRuns) (recovery : List (ℕ × JobRecord)) {stage : RecoveryStage}
    (hstage : ∀ a, stage ≠ .enqueue a) :
    BoundRuns { s with recovery := recovery, stage := stage } :=
  ⟨h.wellFormed, h.live, h.distinct, h.active, h.queue_nodup, h.queued_out, h.queued_open,
    fun _ _ a ha => absurd ha (hstage a), h.launched, h.settled⟩

theorem recoverNext (h : s.BoundRuns) : s.recoverNext.BoundRuns :=
  h.plan _ RecoveryStage.classify_ne

/-! ### Launching -/

/-- The registry after a launch of an attempt no live run carries, before the
run is registered. -/
theorem launchEffect (h : s.BoundRuns) {prebound : Option ℕ}
    (heffect : LaunchEffect s.registry r' j prebound)
    (hfree : ∀ a, prebound = some a → s.notLive a) (hqueue : j ∉ s.queue)
    (hsettled : ∀ row, r'.jobs.get? j = some row → row.controlVersion < maxControlVersion →
      row.status ≠ .active) :
    BoundRuns { s with registry := r' } := by
  refine h.touch heffect.touches (heffect.wellFormed h.wellFormed) (fun a hmem => ?_)
    (fun _ hin => absurd hin hqueue) fun _ row hrow hact hv => absurd hact (hsettled row hrow hv)
  obtain ⟨record, hrec, hjob, hopen⟩ := h.live j a hmem
  refine ⟨record, heffect.kept a record hrec fun hpre => ?_, hjob, hopen⟩
  exact hfree a hpre _ hmem rfl

/-- A registered run: the attempt is open and no other run carries it. -/
theorem register (h : s.BoundRuns) {prebound : Option ℕ} {attempt : ℕ}
    (heffect : LaunchEffect s.registry r' j prebound)
    (hfree : ∀ a, prebound = some a → s.notLive a) (hnew : s.notLive attempt)
    (hopen : r'.Open attempt j) (hqueue : j ∉ s.queue) :
    BoundRuns ({ s with registry := r' }.register j attempt) where
  wellFormed := heffect.wellFormed h.wellFormed
  live k a hmem := by
    rcases List.mem_append.mp hmem with hmem | hmem
    · obtain ⟨record, hrec, hjob, hopen'⟩ := h.live k a hmem
      refine ⟨record, heffect.kept a record hrec fun hpre => ?_, hjob, hopen'⟩
      exact hfree a hpre _ hmem rfl
    · cases List.mem_singleton.mp hmem
      exact hopen
  distinct := by
    simp only [Actor.register, List.map_append, List.map_cons, List.map_nil]
    rw [← List.concat_eq_append]
    refine h.distinct.concat fun ha => ?_
    obtain ⟨run, hrun, heq⟩ := List.mem_map.mp ha
    exact hnew run hrun heq
  active k a hk := by
    by_cases hkj : k = j
    · subst hkj
      have : attempt = a := by simpa [Actor.register] using hk
      exact List.mem_append_right _ (by rw [this]; exact List.mem_singleton_self _)
    · refine List.mem_append_left _ (h.active k a ?_)
      exact (SortedMap.get?_insert_of_ne _ _ hkj).symm.trans hk
  queue_nodup := h.queue_nodup
  queued_out hrun k hk run hmem := by
    rcases List.mem_append.mp hmem with hmem | hmem
    · exact h.queued_out hrun k hk run hmem
    · rw [List.mem_singleton.mp hmem]
      intro heq
      exact hqueue (by rw [show j = k from heq]; exact hk)
  queued_open hrun k hk row a hrow hcur := by
    have hne : k ≠ j := fun heq => hqueue (heq ▸ hk)
    have hrow' : s.registry.jobs.get? k = some row := (heffect.touches.others k hne) ▸ hrow
    exact heffect.touches.open_of_ne (h.queued_open hrun k hk row a hrow' hcur) hne
  planned entry hentry a hstage := heffect.touches.owned (h.planned entry hentry a hstage)
  launched l hl := by
    rcases List.mem_append.mp hl with hl | hl
    · exact h.launched l hl
    · cases List.mem_singleton.mp hl
      exact hopen
  settled hrun k row hrow hact hv hl := by
    by_cases hkj : k = j
    · subst hkj
      exact ⟨attempt, List.mem_append_right _ (List.mem_singleton_self _)⟩
    · have hrow' : s.registry.jobs.get? k = some row := (heffect.touches.others k hkj) ▸ hrow
      obtain ⟨l, hmem, hjob⟩ := hl
      rcases List.mem_append.mp hmem with hmem | hmem
      · obtain ⟨a, ha⟩ := h.settled hrun k row hrow' hact hv ⟨l, hmem, hjob⟩
        exact ⟨a, List.mem_append_left _ ha⟩
      · rw [List.mem_singleton.mp hmem] at hjob
        exact absurd hjob.symm hkj

/-- A launch under an open attempt that no live run carries. -/
theorem launchJob (h : s.BoundRuns) {record : JobRecord}
    (hjob : s.registry.jobs.get? j = some record) {prebound : Option ℕ}
    (hopen : ∀ a, prebound = some a → s.registry.Open a j)
    (hfree : ∀ a, prebound = some a → s.notLive a) (hqueue : j ∉ s.queue)
    (reason : AttemptReason) (refusal : Option AppError) :
    BoundRuns (s.launchJob key j reason prebound refusal).2 := by
  obtain ⟨r', heffect, hcases⟩ :=
    launchJob_spec key hjob (fun a ha => (hopen a ha).owned) reason refusal
  rcases hcases with ⟨attempt, row, heq, -, -, -, hkind, hbound⟩ | ⟨e, heq, hfailed⟩ <;> rw [heq]
  · refine h.register heffect hfree ?_ (hbound hopen) hqueue
    rcases hkind with hsame | ⟨-, rfl⟩
    · exact hfree attempt hsame
    · -- a new attempt comes after all those of live runs
      intro run hrun heq
      obtain ⟨record', hrec, -⟩ := h.live run.1 run.2 hrun
      exact absurd (List.getElem?_eq_some_iff.mp hrec).1 (by omega)
  · -- a launch that fails leaves the job failed, not active without a run
    refine h.launchEffect heffect hfree hqueue fun row hrow hv hact => ?_
    rw [hfailed hopen row hrow hv] at hact
    cases hact

/-! ### Handlers -/

theorem running_of_not_full (hfull : s.full = false) : s.shuttingDown = false := by
  unfold full at hfull
  exact (Bool.or_eq_false_iff.mp hfull).1

theorem enqueue (h : s.BoundRuns) {prebound : Option ℕ}
    (hok : s.isTerminal j = false → s.admits j)
    (hpre : s.isTerminal j = false → s.full = false → ∀ a, prebound = some a →
      s.registry.Open a j ∧ s.notLive a) (refusal : Option AppError) :
    BoundRuns (s.enqueue key j prebound refusal).2 := by
  rcases enqueue_cases key s j prebound refusal with
    ⟨e, heq⟩ | ⟨row, hrow, hterm, ⟨hfull, heq⟩ | ⟨hfull, heq⟩⟩ <;> rw [heq]
  · exact h
  · have hadmits := hok (by simpa [isTerminal, hrow] using hterm)
    refine h.push (fun hrun => ?_) fun hrun row' a hrow' hcur => ?_ <;>
      obtain ⟨hqueue, hjoin⟩ := hadmits.resolve_left (by simp [hrun])
    · exact ⟨hqueue, (hjoin hfull).1⟩
    · exact open_of_not_finished h.wellFormed hrow' hcur (hjoin hfull).2
  · have hnot : s.isTerminal j = false := by simpa [isTerminal, hrow] using hterm
    have hqueue := ((hok hnot).resolve_left (by simp [running_of_not_full hfull])).1
    exact h.launchJob hrow (fun a ha => (hpre hnot hfull a ha).1)
      (fun a ha => (hpre hnot hfull a ha).2) hqueue _ _

theorem control (h : s.BoundRuns) (expected : ℕ) (desired : DesiredState)
    (status : DurableJobStatus) (refusal : Option AppError) :
    BoundRuns (s.control j expected desired status refusal).2 := by
  rcases control_cases s j expected desired status refusal with
    ⟨e, heq⟩ | ⟨r₁, hset, ⟨e, heq⟩ | ⟨-, heq⟩ | ⟨hactive, r₂, hmark, heq⟩⟩ <;> rw [heq]
  · exact h
  · exact h.setDesired hset
  · exact h.setDesired hset
  · -- only a live run is marked, so an active status has its run
    obtain ⟨a, ha⟩ := Option.isSome_iff_exists.mp hactive
    exact (h.setDesired hset).markStatus hmark fun _ => ⟨a, h.active j a ha⟩

theorem cancel (h : s.BoundRuns) (expected : ℕ) (refusal : Option AppError) :
    BoundRuns (s.cancel j expected refusal).2 := by
  rcases cancel_cases s j expected refusal with
    ⟨e, heq⟩ | ⟨r₁, hset, heq | ⟨-, r₂, hmark, heq⟩⟩ <;> rw [heq]
  · exact h
  · exact h.setDesired hset
  have h₁ : BoundRuns { s with registry := r₁, queue := s.queue.filter (· ≠ j) } :=
    (h.setDesired hset).shrink List.filter_sublist
  rcases hmark with rfl | hmark
  · exact h₁
  · exact h₁.markStatus hmark nofun

/-- A retry begins an attempt of its own. -/
theorem retry (h : s.BoundRuns) (expected : ℕ)
    (hok : s.isTerminal j = true →
      (s.registry.compareAndSetDesired j expected .running).isOk = true → s.admits j)
    (refusal : Option AppError) : BoundRuns (s.retry key j expected refusal).2 := by
  rcases retry_cases key s j expected refusal with
    ⟨e, heq⟩ | ⟨row, r₁, hrow, hterm, hset, hcases⟩
  · rw [heq]
    exact h
  have h₁ := h.setDesired hset
  have hadmits := hok (by simpa [isTerminal, hrow] using hterm) (by rw [hset]; rfl)
  obtain ⟨old, hold, hget⟩ := Registry.compareAndSetDesired_row hset
  rcases hcases with ⟨e, heq⟩ | ⟨hfull, r₂, hmark, heq⟩ | ⟨hfull, heq⟩ <;> rw [heq]
  · exact h₁
  · have h₂ := h₁.markStatus hmark nofun
    refine h₂.push (fun hrun => ?_) fun hrun row' a hrow' hcur => ?_ <;>
      obtain ⟨hqueue, hjoin⟩ := hadmits.resolve_left (by simpa using hrun)
    · exact ⟨hqueue, (hjoin hfull).1⟩
    · -- neither change touched the attempts or the current one
      obtain ⟨old', hold', hget'⟩ := Registry.markStatus_row hmark
      rw [hget] at hold'
      cases hold'
      rw [hget'] at hrow'
      cases hrow'
      have hopen := open_of_not_finished h.wellFormed hold hcur (hjoin hfull).2
      obtain ⟨_, -, -, rfl⟩ := Registry.markStatus_eq_ok hmark
      obtain ⟨_, -, -, rfl⟩ := Registry.compareAndSetDesired_eq_ok hset
      exact hopen
  · have hqueue := (hadmits.resolve_left (by simp [running_of_not_full hfull])).1
    exact h₁.launchJob hget (fun _ ha => by cases ha) (fun _ ha => by cases ha) hqueue _ _

/-- One iteration of the promotion loop, with the rest of the queue still to
come. -/
theorem promoteOne {rest : List ℕ} {refusal : Option AppError}
    (h : BoundRuns { s with queue := s.queue ++ j :: rest }) :
    BoundRuns { s.promoteOne key j refusal with
      queue := (s.promoteOne key j refusal).queue ++ rest } := by
  have hrest : BoundRuns { s with queue := s.queue ++ rest } :=
    h.shrink ((List.Sublist.refl s.queue).append (List.sublist_cons_self j rest))
  rcases promoteOne_cases key s j refusal with
    ⟨heq, -⟩ | ⟨heq, -⟩ | ⟨-, registry, heq, hmark, -⟩ | ⟨hfull, row, hrow, -, -, heq⟩ <;> rw [heq]
  · simpa using h
  · exact hrest
  · exact hrest.markStatus hmark nofun
  · have hrun := running_of_not_full hfull
    have hin : j ∈ s.queue ++ j :: rest := by simp
    have hnot : j ∉ s.queue ++ rest :=
      (List.nodup_cons.mp (List.nodup_middle.mp (h.queue_nodup hrun))).1
    rw [launchJob_keeps_queue, ← launchJob_queue]
    refine hrest.launchJob hrow (fun a ha => h.queued_open hrun j hin row a hrow ha)
      (fun a ha run hmem heq => ?_) hnot _ _
    -- the attempt belongs to this job, which has no run
    obtain ⟨record, hrec, hjob, -⟩ := h.queued_open hrun j hin row a hrow ha
    obtain ⟨record', hrec', hjob', -⟩ := h.live run.1 run.2 hmem
    rw [heq, hrec] at hrec'
    cases hrec'
    exact h.queued_out hrun j hin run hmem (hjob'.symm.trans hjob)

/-- The end of a run is recorded on its attempt. -/
theorem ended (h : s.BoundRuns) {attempt : ℕ} (hmem : (j, attempt) ∈ s.completions)
    {outcome : AttemptOutcome}
    (houtcome : s.shuttingDown = false → ∃ status, outcome.status = some status) :
    BoundRuns { s with
      completions := s.completions.erase (j, attempt)
      registry := s.registry.recordOutcome attempt outcome
      active := s.active.erase j } := by
  have hopen := h.live j attempt hmem
  obtain ⟨record, hat, hjob, -⟩ := hopen
  have htouch := Registry.touches_recordOutcome outcome hat hjob
  have hnodup : s.completions.Nodup := List.Nodup.of_map _ h.distinct
  -- attempts of live runs are distinct, so the recording spares those still live
  have hother : ∀ k a, (k, a) ∈ s.completions.erase (j, attempt) → a ≠ attempt := by
    rintro k a hk rfl
    obtain ⟨hne, hk⟩ := hnodup.mem_erase_iff.mp hk
    exact hne (List.inj_on_of_nodup_map h.distinct hk hmem rfl)
  refine ⟨h.wellFormed.recordOutcome hat outcome, fun k a hk => ?_,
    h.distinct.sublist (List.erase_sublist.map _), fun k a hk => ?_, h.queue_nodup,
    fun hrun k hk run hrun' => h.queued_out hrun k hk run (List.mem_of_mem_erase hrun'),
    fun hrun k hk row a hrow hcur => ?_,
    fun entry hentry a hstage => htouch.owned (h.planned entry hentry a hstage), h.launched,
    fun hrun k row hrow hact hv hl => ?_⟩
  · obtain ⟨record', hrec, hjob', hopen'⟩ := h.live k a (List.mem_of_mem_erase hk)
    refine ⟨record', ?_, hjob', hopen'⟩
    rw [Registry.recordOutcome_attempts_of_ne outcome (hother k a hk)]
    exact hrec
  · have hne : k ≠ j := by
      rintro rfl
      simp at hk
    rw [SortedMap.get?_erase_of_ne _ hne] at hk
    exact hnodup.mem_erase_iff.mpr ⟨fun heq => hne (congrArg Prod.fst heq), h.active k a hk⟩
  · have hne : k ≠ j := fun heq => h.queued_out hrun k hk _ hmem heq.symm
    rw [htouch.others k hne] at hrow
    exact htouch.open_of_ne (h.queued_open hrun k hk row a hrow hcur) hne
  · obtain ⟨status, hstatus⟩ := houtcome hrun
    by_cases hkj : k = j
    · -- the job took a terminal status
      subst hkj
      have hrowstatus := Registry.recordOutcome_status (h.live k attempt hmem) hstatus hrow hv
      have hterm := AttemptOutcome.isTerminal_of_status hstatus
      rw [← hrowstatus, hact] at hterm
      cases hterm
    · rw [htouch.others k hkj] at hrow
      obtain ⟨a, ha⟩ := h.settled hrun k row hrow hact hv hl
      exact ⟨a, hnodup.mem_erase_iff.mpr ⟨fun heq => hkj (congrArg Prod.fst heq), ha⟩⟩

theorem promoteQueued (h : s.BoundRuns) (refusals : ℕ → Option AppError) :
    (s.promoteQueued key refusals).BoundRuns := by
  have hloop := promoteLoop_invariant key
    (I := fun s rest => BoundRuns { s with queue := s.queue ++ rest }) refusals
    (fun _ _ _ _ hs => hs.promoteOne) 0 s.queue { s with queue := [] } h
  simp only [List.append_nil] at hloop
  exact hloop

/-- Outside shutdown every outcome gives the job a status. -/
theorem attemptOutcome_status (outcome : EngineOutcome) (hrun : s.shuttingDown = false) :
    ∃ status, (s.attemptOutcome outcome).status = some status := by
  cases outcome <;> simp [attemptOutcome, hrun, AttemptOutcome.status]

/-! ### Planner steps -/

theorem recoverMark (h : s.BoundRuns) (listed : JobRecord) {status : DurableJobStatus}
    (hstatus : status ≠ .active) {onward : Actor → Actor}
    (honward : ∀ s, BoundRuns s → (onward s).BoundRuns) :
    (s.recoverMark j listed status onward).BoundRuns := by
  unfold Actor.recoverMark
  split_ifs
  · exact honward s h
  · rcases hmark : s.registry.markStatus j status with e | r₁
    · exact h.plan [] RecoveryStage.classify_ne
    · exact honward _ (h.markStatus hmark fun hact => absurd hact hstatus)

theorem recoverClassify (h : s.BoundRuns) (listed : JobRecord) :
    (s.recoverClassify j listed).BoundRuns := by
  unfold Actor.recoverClassify
  split
  · exact h.recoverMark listed (by decide) fun s hs => hs.plan s.recovery (fun _ ha => by cases ha)
  · exact h.recoverMark listed (by decide) fun _ hs => hs.recoverNext
  · exact h.recoverNext

/-- Beginning a recovery attempt interrupts the job's open attempts, which no
live run carries. -/
theorem recoverBegin (h : s.BoundRuns) {listed : JobRecord} {rest : List (ℕ × JobRecord)}
    (hhead : s.recovery = (j, listed) :: rest)
    (hok : s.registry.attemptByLaunchKey j key = none → ∀ run ∈ s.completions, run.1 ≠ j) :
    (s.recoverBegin key j).BoundRuns := by
  rcases recoverBegin_cases key s j with
    heq | heq | ⟨hkey, row, attempt, r', hrow, hget, htouch, hwf, hopen, heq⟩ <;> rw [heq]
  · exact h.plan [] RecoveryStage.classify_ne
  · exact h.recoverNext
  -- the job has no run when its attempts are interrupted
  have h₁ : BoundRuns { s with registry := r' } := by
    refine h.touch htouch (hwf h.wellFormed) (fun a hmem => absurd rfl (hok hkey _ hmem))
      (fun _ _ row' a hrow' hcur => ?_) fun hrun row' hrow' hact hv hl => ?_
    · rw [hget] at hrow'
      cases hrow'
      cases hcur
      exact hopen
    · rw [hget] at hrow'
      cases hrow'
      exact h.settled hrun j row hrow hact hv hl
  refine ⟨h₁.wellFormed, h₁.live, h₁.distinct, h₁.active, h₁.queue_nodup, h₁.queued_out,
    h₁.queued_open, fun entry hentry a hstage => ?_, h₁.launched, h₁.settled⟩
  cases hstage
  rw [hhead] at hentry
  cases hentry
  exact hopen.owned

/-- The attempt the planner begun is open and free when it is enqueued. -/
theorem planned_open (h : s.BoundRuns) {entry : ℕ × JobRecord} {attempt : ℕ}
    (hentry : entry ∈ s.recovery.head?) (hstage : s.stage = .enqueue attempt)
    (hfree : s.plannedFree) : s.registry.Open attempt entry.1 ∧ s.notLive attempt := by
  simp only [plannedFree, hstage] at hfree
  obtain ⟨record, hrec, hjob⟩ := (h.planned entry hentry attempt hstage).exists
  rw [hrec] at hfree
  exact ⟨⟨record, hrec, hjob, by simpa using hfree.1⟩, hfree.2⟩

/-! ### Runs -/

/-- **The invariant is kept** when no finished or shared attempt comes to a
launch. -/
theorem step {e : SupervisorEvent} {s' : Actor} (h : s.BoundRuns) (hok : s.bindsAttempts key e)
    (hstep : supervisorStep key s e = some s') : s'.BoundRuns := by
  cases e with
  | insertJob job =>
    simp only [supervisorStep] at hstep
    split_ifs at hstep with hin
    cases hstep
    have hnone := (get?_of_not_knows hin).1
    have hget : (s.registry.insertJob job).jobs.get? job = some ⟨.running, .queued, 1, none⟩ :=
      SortedMap.get?_insert_self ..
    refine h.touch (j := job) (Registry.touches_putJob fun old hold => ?_)
      (h.wellFormed.insertJob job) (h.live job) (fun _ _ row a hrow hcur => ?_)
      fun _ row hrow hact => ?_
    · rw [hnone] at hold
      cases hold
    · rw [hget] at hrow
      cases hrow
      cases hcur
    · rw [hget] at hrow
      cases hrow
      cases hact
  | enqueue job refusal =>
    cases hstep
    exact (h.enqueue hok (fun _ _ _ ha => by cases ha) refusal).accept
  | pause job expected refusal =>
    cases hstep
    exact h.control expected .paused .paused refusal
  | resume job expected refusal =>
    cases hstep
    exact (h.control expected .running .active refusal).accept
  | cancel job expected refusal =>
    cases hstep
    exact h.cancel expected refusal
  | retry job expected refusal =>
    cases hstep
    exact (h.retry expected hok refusal).accept
  | updateLimits activeDownloads =>
    cases hstep
    exact ⟨h.wellFormed, h.live, h.distinct, h.active, h.queue_nodup, h.queued_out, h.queued_open,
      h.planned, h.launched, h.settled⟩
  | shutdown =>
    cases hstep
    -- what is said outside shutdown holds trivially from here on
    refine ⟨h.wellFormed, h.live, h.distinct, h.active, ?_, ?_, ?_, h.planned, h.launched, ?_⟩ <;>
      · intro hrun
        cases hrun
  | completed job attempt outcome refusals =>
    simp only [supervisorStep] at hstep
    split_ifs at hstep with hmem
    cases hstep
    exact (h.ended hmem (attemptOutcome_status outcome)).promoteQueued refusals
  | recoverList =>
    simp only [supervisorStep] at hstep
    split_ifs at hstep
    cases hstep
    exact h.plan _ RecoveryStage.classify_ne
  | recoverClassify =>
    simp only [supervisorStep] at hstep
    split at hstep <;> cases hstep
    exact h.recoverClassify _
  | recoverBegin =>
    simp only [supervisorStep] at hstep
    split at hstep <;> cases hstep
    rename_i job listed rest hhead _
    exact h.recoverBegin hhead (hok (job, listed) (by rw [hhead]; rfl))
  | recoverEnqueue refusal =>
    simp only [supervisorStep] at hstep
    split at hstep <;> cases hstep
    rename_i job listed rest attempt hhead hstage
    have hentry : (job, listed) ∈ s.recovery.head? := by rw [hhead]; rfl
    refine BoundRuns.recoverNext (BoundRuns.accept (h.enqueue
      (fun hterm => (hok _ hentry hterm).1) (fun hterm hfull a ha => ?_) refusal))
    cases ha
    exact h.planned_open hentry hstage ((hok _ hentry hterm).2 hfull)

theorem start (h : s.Starts) : s.BoundRuns where
  wellFormed := h.wellFormed
  live := by simp [h.completions]
  distinct := by simp [h.completions]
  active := by simp [h.active]
  queue_nodup := by simp [h.queue]
  queued_out := by simp [h.queue]
  queued_open := by simp [h.queue]
  planned := by simp [h.recovery]
  launched := by simp [h.launches]
  settled := by simp [h.launches]

end BoundRuns

/-- Promotion touches only the job it takes from the queue, and none while no
slot is open. -/
theorem promoteOne_registry (key : ℕ) (hwf : s.registry.WellFormed) (refusal : Option AppError) :
    (s.promoteOne key j refusal).shuttingDown = s.shuttingDown ∧
      ((s.promoteOne key j refusal).registry = s.registry ∨
        s.full = false ∧ s.registry.Touches (s.promoteOne key j refusal).registry j) := by
  rcases promoteOne_cases key s j refusal with
    ⟨heq, -⟩ | ⟨heq, -⟩ | ⟨hfull, registry, heq, hmark, -⟩ | ⟨hfull, row, hrow, -, -, heq⟩ <;>
    rw [heq]
  · exact ⟨rfl, .inl rfl⟩
  · exact ⟨rfl, .inl rfl⟩
  · exact ⟨rfl, .inr ⟨hfull, Registry.touches_markStatus hmark⟩⟩
  · obtain ⟨r', heffect, hcases⟩ := launchJob_spec key hrow
      (fun a ha => hwf j row a hrow ha) .initial refusal
    rcases hcases with ⟨attempt, row', heq', -⟩ | ⟨e, heq', -⟩ <;> rw [heq'] <;>
      exact ⟨rfl, .inr ⟨hfull, heffect.touches⟩⟩

/-- Promotion leaves a finished attempt and a job outside the queue as they
are. -/
theorem BoundRuns.promoteQueued_keeps (h : s.BoundRuns) (key : ℕ) {attempt : ℕ}
    {record : AttemptRecord} (hrec : s.registry.attempts[attempt]? = some record)
    (hfin : record.outcome.isSome = true)
    (hout : s.shuttingDown = false → j ∉ s.queue) (refusals : ℕ → Option AppError) :
    (s.promoteQueued key refusals).registry.attempts[attempt]? = some record ∧
      (s.promoteQueued key refusals).registry.jobs.get? j = s.registry.jobs.get? j := by
  have hloop := promoteLoop_invariant key
    (I := fun t rest => BoundRuns { t with queue := t.queue ++ rest } ∧
      (t.shuttingDown = false → j ∉ rest) ∧ t.registry.attempts[attempt]? = some record ∧
      t.registry.jobs.get? j = s.registry.jobs.get? j) refusals ?_
    0 s.queue { s with queue := [] } ⟨h, hout, hrec, rfl⟩
  · exact hloop.2.2
  rintro t job rest refusal ⟨hbound, hnot, hkept, hrow⟩
  obtain ⟨hshut, hregistry⟩ :=
    promoteOne_registry key (s := t) (j := job) hbound.wellFormed refusal
  refine ⟨hbound.promoteOne, fun hrun hin => hnot (hshut ▸ hrun) (List.mem_cons_of_mem _ hin), ?_⟩
  rcases hregistry with heq | ⟨hfull, htouch⟩
  · rw [heq]
    exact ⟨hkept, hrow⟩
  · -- nothing is promoted during shutdown, and outside it the job is not in the queue
    have hne : j ≠ job := by
      rintro rfl
      exact hnot (BoundRuns.running_of_not_full hfull) List.mem_cons_self
    obtain ⟨record', hrec', -, -, hdone⟩ := htouch.attempts attempt record hkept
    rw [hdone hfin] at hrec'
    exact ⟨hrec', (htouch.others j hne).trans hrow⟩

/-- A completion is recorded on the attempt of its run, and its job takes the
matching status. -/
theorem BoundRuns.completed (h : s.BoundRuns) {attempt : ℕ} {outcome : EngineOutcome}
    {refusals : ℕ → Option AppError} {s' : Actor}
    (hstep : supervisorStep key s (.completed j attempt outcome refusals) = some s') :
    (∃ record, s'.registry.attempts[attempt]? = some record ∧ record.jobId = j ∧
      record.outcome = some (s.attemptOutcome outcome)) ∧
    (s.shuttingDown = false → ∀ row, s'.registry.jobs.get? j = some row →
      row.controlVersion < maxControlVersion →
      some row.status = (s.attemptOutcome outcome).status) := by
  simp only [supervisorStep] at hstep
  split_ifs at hstep with hmem
  cases hstep
  have hopen := h.live j attempt hmem
  obtain ⟨record, hjob, hout, hrec⟩ :=
    Registry.recordOutcome_attempts (s.attemptOutcome outcome) hopen
  obtain ⟨hkept, hrow⟩ := (h.ended hmem (attemptOutcome_status outcome)).promoteQueued_keeps
    key (j := j) hrec (by rw [hout]; rfl)
    (fun hrun hin => h.queued_out hrun j hin _ hmem rfl) refusals
  refine ⟨⟨record, hkept, hjob, hout⟩, fun hrun row hget hv => ?_⟩
  obtain ⟨status, hstatus⟩ := attemptOutcome_status outcome hrun
  rw [hstatus, Registry.recordOutcome_status hopen hstatus (hrow ▸ hget) hv]

end Actor

/-- **Attempt binding.**  In every run whose steps meet `bindsAttempts`, every
launch was made under an open attempt of its job; every completion is recorded
on the attempt of its run and gives the job the matching status; and outside
shutdown a launched job that is active has a live run.  Jobs whose control
version reached the cap, so that the registry refuses to mark them, are left
out of the statements about statuses. -/
theorem attempts_bound (key : ℕ) (s : Actor)
    (h : Reach (supervisorStep key) (fun s e => s.bindsAttempts key e) Actor.Starts s) :
    (∀ l ∈ s.launches, ∃ record, l.record = some record ∧ record.jobId = l.job ∧
      record.outcome = none) ∧
    (∀ job attempt outcome refusals s',
      supervisorStep key s (.completed job attempt outcome refusals) = some s' →
      (∃ record, s'.registry.attempts[attempt]? = some record ∧ record.jobId = job ∧
        record.outcome = some (s.attemptOutcome outcome)) ∧
      (s.shuttingDown = false → ∀ row, s'.registry.jobs.get? job = some row →
        row.controlVersion < maxControlVersion →
        some row.status = (s.attemptOutcome outcome).status)) ∧
    (s.shuttingDown = false → ∀ job row, s.registry.jobs.get? job = some row →
      row.status = .active → row.controlVersion < maxControlVersion →
      (∃ l ∈ s.launches, l.job = job) → ∃ attempt, (job, attempt) ∈ s.completions) := by
  have hbound : s.BoundRuns :=
    h.invariant (fun _ h₀ => .start h₀) fun _ _ _ hs hok hstep => hs.step hok hstep
  exact ⟨hbound.launched, fun _ _ _ _ _ hstep => hbound.completed hstep, hbound.settled⟩

/-! ### A retry without a free slot -/

/-- A job fails, is retried while a slot is open, and completes. -/
def retriedJob : List SupervisorEvent :=
  [.insertJob 1, .enqueue 1 none, .completed 1 0 (.failed "network" none) fun _ => none,
    .retry 1 3 none, .completed 1 1 .completed fun _ => none]

/-- Each launch has an attempt of its own, which is not finished. -/
theorem attempts_bound_retried_job :
    ∃ s, runEvents (supervisorStep 0) (.fresh 1) retriedJob = some s ∧
      s.launches.map (fun l => (l.job, l.attempt)) = [(1, 0), (1, 1)] ∧
      ∀ l ∈ s.launches, ∃ record, l.record = some record ∧ record.jobId = l.job ∧
        record.outcome = none := by
  have hend : ((runEvents (supervisorStep 0) (.fresh 1) retriedJob).map fun s =>
      s.launches.map fun l => (l.job, l.attempt)) = some [(1, 0), (1, 1)] := by decide
  obtain ⟨s, hrun, hlaunches⟩ := Option.map_eq_some_iff.mp hend
  have hreach : Reach (supervisorStep 0) (fun s e => s.bindsAttempts 0 e) Actor.Starts s :=
    .of_run (.start (Actor.starts_fresh 1)) (by decide) hrun
  exact ⟨s, hrun, hlaunches, (attempts_bound 0 s hreach).1⟩

/-- The only slot is taken when the failed job is retried; it is promoted later
under the attempt that failed. -/
def retriedWhileFull : List SupervisorEvent :=
  [.insertJob 1, .insertJob 2, .enqueue 1 none,
    .completed 1 0 (.failed "network" none) fun _ => none,
    .enqueue 2 none, .retry 1 3 none, .completed 2 1 .completed fun _ => none]

/-- **A retry that waits in the queue** is launched under the attempt that is
over. -/
theorem retry_reuses_finished_attempt :
    ¬ ∀ (key : ℕ) (s : Actor),
      Reach (supervisorStep key) (fun _ _ => True) Actor.Starts s →
      (∀ l ∈ s.launches, ∃ record, l.record = some record ∧ record.jobId = l.job ∧
        record.outcome = none) ∧
      (∀ job attempt outcome refusals s',
        supervisorStep key s (.completed job attempt outcome refusals) = some s' →
        (∃ record, s'.registry.attempts[attempt]? = some record ∧ record.jobId = job ∧
          record.outcome = some (s.attemptOutcome outcome)) ∧
        (s.shuttingDown = false → ∀ row, s'.registry.jobs.get? job = some row →
          row.controlVersion < maxControlVersion →
          some row.status = (s.attemptOutcome outcome).status)) ∧
      (s.shuttingDown = false → ∀ job row, s.registry.jobs.get? job = some row →
        row.status = .active → row.controlVersion < maxControlVersion →
        (∃ l ∈ s.launches, l.job = job) → ∃ attempt, (job, attempt) ∈ s.completions) := by
  intro h
  have hend : ((runEvents (supervisorStep 0) (.fresh 1) retriedWhileFull).map fun s =>
      s.launches.getLast?.bind (·.record)) =
        some (some ⟨1, 1, .initial, some (.failed "network" none)⟩) := by decide
  obtain ⟨s, hrun, hlast⟩ := Option.map_eq_some_iff.mp hend
  have hreach : Reach (supervisorStep 0) (fun _ _ => True) Actor.Starts s :=
    .of_run (.start (Actor.starts_fresh 1)) (by decide) hrun
  obtain ⟨l, hl, hrec⟩ := Option.bind_eq_some_iff.mp hlast
  obtain ⟨record, hrec', -, hopen⟩ := (h 0 s hreach).1 l (List.mem_of_getLast? hl)
  rw [hrec] at hrec'
  cases hrec'
  cases hopen

end KDown
