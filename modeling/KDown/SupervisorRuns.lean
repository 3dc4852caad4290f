/-
KDown/SupervisorRuns.lean

At most one engine run per job.

The active map, the queue and the stream of completions record one fact three
times: which jobs run, and which wait.  `SingleRun` says that the records agree.
Every handler keeps it, except the admission of a job that already has a run or
a place in the queue: `enqueue` does not look, and a later recovery pass
enqueues the jobs this process started itself.  `entersOnce` excludes exactly
those admissions.
-/
import KDown.Supervisor

namespace KDown

namespace Actor

variable {key : ℕ} {s : Actor} {j : ℕ} {r' : Registry} {answer : Option AppError × Actor}

/-- Neither running nor queued. -/
def isOut (s : Actor) (job : ℕ) : Prop := (∀ run ∈ s.completions, run.1 ≠ job) ∧ job ∉ s.queue

instance (s : Actor) (job : ℕ) : Decidable (s.isOut job) :=
  inferInstanceAs (Decidable ((∀ run ∈ s.completions, run.1 ≠ job) ∧ job ∉ s.queue))

/-- A job is admitted only if it is neither running nor queued. -/
def entersOnce (s : Actor) : SupervisorEvent → Prop
  | .enqueue job _ => s.isOut job
  | .recoverEnqueue _ => ∀ entry ∈ s.recovery.head?, s.isOut entry.1
  | _ => True

instance (s : Actor) : (e : SupervisorEvent) → Decidable (s.entersOnce e)
  | .enqueue job _ => inferInstanceAs (Decidable (s.isOut job))
  | .recoverEnqueue _ => inferInstanceAs (Decidable (∀ entry ∈ s.recovery.head?, s.isOut entry.1))
  | .insertJob _ | .pause _ _ _ | .resume _ _ _ | .cancel _ _ _ | .retry _ _ _ | .updateLimits _
  | .completed _ _ _ _ | .shutdown | .recoverList | .recoverClassify | .recoverBegin =>
      .isTrue trivial

/-- The active map, the queue and the completion stream agree. -/
structure SingleRun (s : Actor) : Prop where
  wellFormed : s.registry.WellFormed
  live_iff : ∀ job attempt, (job, attempt) ∈ s.completions ↔ s.active.get? job = some attempt
  nodup : s.completions.Nodup
  queue_nodup : s.queue.Nodup
  queued : ∀ job ∈ s.queue, s.active.get? job = none
  /-- What runs or waits is not terminal. -/
  pending : ∀ job, s.active.contains job = true ∨ job ∈ s.queue →
    ∃ row, s.registry.jobs.get? job = some row ∧ row.status.isTerminal = false
  owned : ∀ job attempt, (job, attempt) ∈ s.completions → s.registry.Owned attempt job
  planned : ∀ entry ∈ s.recovery.head?, ∀ attempt, s.stage = .enqueue attempt →
    s.registry.Owned attempt entry.1
  slots : ∀ l ∈ s.launches, l.liveRuns < l.maxActive

namespace SingleRun

/-- There are as many live runs as entries in the active map. -/
theorem length_eq (h : s.SingleRun) : s.completions.length = s.active.length := by
  refine ((List.perm_ext_iff_of_nodup h.nodup s.active.nodup_entries).mpr fun run => ?_).length_eq
  rw [h.live_iff run.1 run.2, ← SortedMap.mem_entries]

/-- A job that is out is in none of the records. -/
theorem get?_of_isOut (h : s.SingleRun) (hout : s.isOut j) : s.active.get? j = none := by
  rcases hget : s.active.get? j with _ | attempt
  · rfl
  · exact absurd rfl (hout.1 _ ((h.live_iff j attempt).mpr hget))

/-- A terminal job is out. -/
theorem isOut_of_terminal (h : s.SingleRun) {row : JobRecord}
    (hrow : s.registry.jobs.get? j = some row) (hterm : row.status.isTerminal = true) :
    s.active.get? j = none ∧ j ∉ s.queue := by
  have hnot : ¬ (s.active.contains j = true ∨ j ∈ s.queue) := by
    intro hin
    obtain ⟨row', hrow', hopen⟩ := h.pending j hin
    rw [hrow] at hrow'
    cases hrow'
    rw [hterm] at hopen
    cases hopen
  rw [not_or] at hnot
  exact ⟨by simpa [SortedMap.contains] using hnot.1, hnot.2⟩

/-- A change of one job's records that keeps it non-terminal while it runs or
waits. -/
theorem touch (h : s.SingleRun) (htouch : s.registry.Touches r' j) (hwf : r'.WellFormed)
    (hpending : s.active.contains j = true ∨ j ∈ s.queue →
      ∃ row, r'.jobs.get? j = some row ∧ row.status.isTerminal = false) :
    SingleRun { s with registry := r' } where
  wellFormed := hwf
  live_iff := h.live_iff
  nodup := h.nodup
  queue_nodup := h.queue_nodup
  queued := h.queued
  pending k hk := by
    rcases eq_or_ne k j with rfl | hne
    · exact hpending hk
    · rw [htouch.others k hne]
      exact h.pending k hk
  owned k a hmem := htouch.owned (h.owned k a hmem)
  planned entry hentry a hstage := htouch.owned (h.planned entry hentry a hstage)
  slots := h.slots

/-- A milestone that is not terminal. -/
theorem markStatus (h : s.SingleRun) {status : DurableJobStatus}
    (hmark : s.registry.markStatus j status = .ok r') (hopen : status.isTerminal = false) :
    SingleRun { s with registry := r' } := by
  refine h.touch (Registry.touches_markStatus hmark) (h.wellFormed.markStatus hmark) fun _ => ?_
  obtain ⟨old, -, hget⟩ := Registry.markStatus_row hmark
  exact ⟨_, hget, hopen⟩

/-- A change of the desired state. -/
theorem setDesired (h : s.SingleRun) {expected : ℕ} {desired : DesiredState}
    (hset : s.registry.compareAndSetDesired j expected desired = .ok r') :
    SingleRun { s with registry := r' } := by
  refine h.touch (Registry.touches_compareAndSetDesired hset)
    (h.wellFormed.compareAndSetDesired hset) fun hin => ?_
  obtain ⟨row, hrow, hopen⟩ := h.pending j hin
  obtain ⟨old, hold, hget⟩ := Registry.compareAndSetDesired_row hset
  rw [hrow] at hold
  cases hold
  exact ⟨_, hget, hopen⟩

/-- A non-terminal job that is out joins the queue. -/
theorem push (h : s.SingleRun) {row : JobRecord} (hrow : s.registry.jobs.get? j = some row)
    (hopen : row.status.isTerminal = false) (hactive : s.active.get? j = none)
    (hqueue : j ∉ s.queue) : SingleRun { s with queue := s.queue ++ [j] } where
  wellFormed := h.wellFormed
  live_iff := h.live_iff
  nodup := h.nodup
  queue_nodup := by
    rw [← List.concat_eq_append]
    exact h.queue_nodup.concat hqueue
  queued k hk := by
    rcases List.mem_append.mp hk with hk | hk
    · exact h.queued k hk
    · rw [List.mem_singleton.mp hk]
      exact hactive
  pending k hk := by
    rcases hk with hk | hk
    · exact h.pending k (.inl hk)
    · rcases List.mem_append.mp hk with hk | hk
      · exact h.pending k (.inr hk)
      · rw [List.mem_singleton.mp hk]
        exact ⟨row, hrow, hopen⟩
  owned := h.owned
  planned := h.planned
  slots := h.slots

/-- A smaller queue in the same order. -/
theorem shrink (h : s.SingleRun) {queue : List ℕ} (hsub : queue.Sublist s.queue) :
    SingleRun { s with queue := queue } where
  wellFormed := h.wellFormed
  live_iff := h.live_iff
  nodup := h.nodup
  queue_nodup := h.queue_nodup.sublist hsub
  queued k hk := h.queued k (hsub.subset hk)
  pending k hk := h.pending k (hk.imp_right fun hk => hsub.subset hk)
  owned := h.owned
  planned := h.planned
  slots := h.slots

/-- The launch of a job that is out, while a slot is open. -/
theorem register (h : s.SingleRun) (hfull : s.full = false) {attempt : ℕ} {row : JobRecord}
    (hrow : s.registry.jobs.get? j = some row) (hopen : row.status.isTerminal = false)
    (howned : s.registry.Owned attempt j) (hactive : s.active.get? j = none)
    (hqueue : j ∉ s.queue) : SingleRun (s.register j attempt) where
  wellFormed := h.wellFormed
  live_iff k a := by
    simp only [Actor.register, List.mem_append, List.mem_singleton, Prod.mk.injEq,
      SortedMap.get?_insert, h.live_iff]
    by_cases hk : k = j
    · subst hk
      simp [hactive, eq_comm]
    · simp [hk]
  nodup := by
    simp only [Actor.register, ← List.concat_eq_append]
    refine h.nodup.concat fun hrun => ?_
    rw [h.live_iff, hactive] at hrun
    cases hrun
  queue_nodup := h.queue_nodup
  queued k hk := by
    have hne : k ≠ j := fun heq => hqueue (heq ▸ hk)
    exact (SortedMap.get?_insert_of_ne _ _ hne).trans (h.queued k hk)
  pending k hk := by
    by_cases hkj : k = j
    · subst hkj
      exact ⟨row, hrow, hopen⟩
    · refine h.pending k (hk.imp_left fun hc => ?_)
      rwa [Actor.register, SortedMap.contains, SortedMap.get?_insert_of_ne _ _ hkj] at hc
  owned k a hmem := by
    rcases List.mem_append.mp hmem with hmem | hmem
    · exact h.owned k a hmem
    · cases List.mem_singleton.mp hmem
      exact howned
  planned := h.planned
  slots l hl := by
    rcases List.mem_append.mp hl with hl | hl
    · exact h.slots l hl
    · cases List.mem_singleton.mp hl
      simp only [full, Bool.or_eq_false_iff, decide_eq_false_iff_not, not_le] at hfull
      -- the slots are counted by the active map, which has one entry for each run
      rw [h.length_eq]
      exact hfull.2

/-- Launching a job that is out. -/
theorem launchJob (h : s.SingleRun) (hfull : s.full = false) {record : JobRecord}
    (hjob : s.registry.jobs.get? j = some record) {prebound : Option ℕ}
    (hpre : ∀ a, prebound = some a → s.registry.Owned a j) (hactive : s.active.get? j = none)
    (hqueue : j ∉ s.queue) (reason : AttemptReason) (refusal : Option AppError) :
    SingleRun (s.launchJob key j reason prebound refusal).2 := by
  obtain ⟨r', heffect, hcases⟩ := launchJob_spec key hjob hpre reason refusal
  -- whatever the launch did to the job's records, the job is still out
  have htouched : SingleRun { s with registry := r' } := by
    refine h.touch heffect.touches (heffect.wellFormed h.wellFormed) fun hin => ?_
    rcases hin with hin | hin
    · rw [SortedMap.contains, hactive] at hin
      cases hin
    · exact absurd hin hqueue
  rcases hcases with ⟨attempt, row, heq, hrow, hstatus, howned, -⟩ | ⟨e, heq, -⟩ <;> rw [heq]
  · exact htouched.register hfull hrow (by rw [hstatus]; rfl) howned hactive hqueue
  · exact htouched

theorem accept (h : SingleRun answer.2) : (Actor.accept j answer).SingleRun := by
  unfold Actor.accept
  split
  · exact ⟨h.wellFormed, h.live_iff, h.nodup, h.queue_nodup, h.queued, h.pending, h.owned,
      h.planned, h.slots⟩
  · exact h

/-- The planner moves on, with no attempt waiting to be enqueued. -/
theorem plan (h : s.SingleRun) (recovery : List (ℕ × JobRecord)) {stage : RecoveryStage}
    (hstage : ∀ a, stage ≠ .enqueue a) :
    SingleRun { s with recovery := recovery, stage := stage } :=
  ⟨h.wellFormed, h.live_iff, h.nodup, h.queue_nodup, h.queued, h.pending, h.owned,
    fun _ _ a ha => absurd ha (hstage a), h.slots⟩

theorem recoverNext (h : s.SingleRun) : s.recoverNext.SingleRun :=
  h.plan _ RecoveryStage.classify_ne

/-! ### Handlers -/

/-- **What `enqueue` launches** had no run before. -/
theorem enqueue (h : s.SingleRun) (hout : s.isOut j) {prebound : Option ℕ}
    (hpre : ∀ a, prebound = some a → s.registry.Owned a j) (refusal : Option AppError) :
    SingleRun (s.enqueue key j prebound refusal).2 := by
  have hactive := h.get?_of_isOut hout
  rcases enqueue_cases key s j prebound refusal with
    ⟨e, heq⟩ | ⟨row, hrow, hopen, ⟨-, heq⟩ | ⟨hfull, heq⟩⟩ <;> rw [heq]
  · exact h
  · exact h.push hrow hopen hactive hout.2
  · exact h.launchJob hfull hrow hpre hactive hout.2 _ _

theorem control (h : s.SingleRun) (expected : ℕ) (desired : DesiredState)
    {status : DurableJobStatus} (hopen : status.isTerminal = false) (refusal : Option AppError) :
    SingleRun (s.control j expected desired status refusal).2 := by
  rcases control_cases s j expected desired status refusal with
    ⟨e, heq⟩ | ⟨r₁, hset, ⟨e, heq⟩ | ⟨-, heq⟩ | ⟨-, r₂, hmark, heq⟩⟩ <;> rw [heq]
  · exact h
  · exact h.setDesired hset
  · exact h.setDesired hset
  · exact (h.setDesired hset).markStatus hmark hopen

theorem cancel (h : s.SingleRun) (expected : ℕ) (refusal : Option AppError) :
    SingleRun (s.cancel j expected refusal).2 := by
  rcases cancel_cases s j expected refusal with
    ⟨e, heq⟩ | ⟨r₁, hset, heq | ⟨hactive, r₂, hmark, heq⟩⟩ <;> rw [heq]
  · exact h
  · exact h.setDesired hset
  have h₁ : SingleRun { s with registry := r₁, queue := s.queue.filter (· ≠ j) } :=
    (h.setDesired hset).shrink List.filter_sublist
  rcases hmark with rfl | hmark
  · exact h₁
  · -- the job is in neither record any more, so it may become terminal
    refine h₁.touch (Registry.touches_markStatus hmark) (h₁.wellFormed.markStatus hmark)
      fun hin => ?_
    rcases hin with hin | hin
    · rw [hactive] at hin
      cases hin
    · simp at hin

theorem retry (h : s.SingleRun) (expected : ℕ) (refusal : Option AppError) :
    SingleRun (s.retry key j expected refusal).2 := by
  rcases retry_cases key s j expected refusal with
    ⟨e, heq⟩ | ⟨row, r₁, hrow, hterm, hset, ⟨e, heq⟩ | ⟨-, r₂, hmark, heq⟩ | ⟨hfull, heq⟩⟩ <;>
    rw [heq]
  · exact h
  · exact h.setDesired hset
  · obtain ⟨hactive, hqueue⟩ := h.isOut_of_terminal hrow hterm
    obtain ⟨old, -, hget⟩ := Registry.markStatus_row hmark
    exact ((h.setDesired hset).markStatus hmark rfl).push hget rfl hactive hqueue
  · obtain ⟨hactive, hqueue⟩ := h.isOut_of_terminal hrow hterm
    obtain ⟨old, -, hget⟩ := Registry.compareAndSetDesired_row hset
    exact (h.setDesired hset).launchJob hfull hget (fun _ ha => by cases ha) hactive hqueue _ _

/-- One iteration of the promotion loop, with the rest of the queue still to
come. -/
theorem promoteOne {rest : List ℕ} {refusal : Option AppError}
    (h : SingleRun { s with queue := s.queue ++ j :: rest }) :
    SingleRun { s.promoteOne key j refusal with
      queue := (s.promoteOne key j refusal).queue ++ rest } := by
  have hnot : j ∉ s.queue ++ rest := (List.nodup_cons.mp (List.nodup_middle.mp h.queue_nodup)).1
  have hrest : SingleRun { s with queue := s.queue ++ rest } :=
    h.shrink ((List.Sublist.refl s.queue).append (List.sublist_cons_self j rest))
  have hactive : s.active.get? j = none := h.queued j (by simp)
  rcases promoteOne_cases key s j refusal with
    ⟨heq, -⟩ | ⟨heq, -⟩ | ⟨-, registry, heq, hmark, -⟩ | ⟨hfull, row, hrow, -, -, heq⟩ <;> rw [heq]
  · simpa using h
  · exact hrest
  · refine hrest.touch (Registry.touches_markStatus hmark) (hrest.wellFormed.markStatus hmark)
      fun hin => ?_
    rcases hin with hin | hin
    · rw [SortedMap.contains, hactive] at hin
      cases hin
    · exact absurd hin hnot
  · rw [launchJob_keeps_queue, ← launchJob_queue]
    exact hrest.launchJob hfull hrow (fun a ha => h.wellFormed j row a hrow ha) hactive hnot _ _

/-- The end of a run: its records go together. -/
theorem ended (h : s.SingleRun) {attempt : ℕ} (hmem : (j, attempt) ∈ s.completions)
    (outcome : AttemptOutcome) :
    SingleRun { s with
      completions := s.completions.erase (j, attempt)
      registry := s.registry.recordOutcome attempt outcome
      active := s.active.erase j } := by
  obtain ⟨row, hat, hjob⟩ := (h.owned j attempt hmem).exists
  have htouch := Registry.touches_recordOutcome outcome hat hjob
  have hactive := (h.live_iff j attempt).mp hmem
  -- the entry is erased by job; with one run per job that is the entry of this run
  refine ⟨h.wellFormed.recordOutcome hat outcome, fun k a => ?_, h.nodup.erase _, h.queue_nodup,
    fun k hk => ?_, fun k hk => ?_, fun k a hk => ?_, fun entry hentry a hstage => ?_, h.slots⟩
  · rw [h.nodup.mem_erase_iff, h.live_iff, SortedMap.get?_erase]
    by_cases hk : k = j
    · subst hk
      simp [hactive, eq_comm]
    · simp [hk]
  · rw [SortedMap.get?_erase]
    split_ifs
    · rfl
    · exact h.queued k hk
  · -- a job that still runs or waits is another job
    have hne : k ≠ j := by
      rintro rfl
      rcases hk with hk | hk
      · simp [SortedMap.contains] at hk
      · rw [h.queued k hk] at hactive
        cases hactive
    rw [htouch.others k hne]
    refine h.pending k (hk.imp_left fun hc => ?_)
    rwa [SortedMap.contains, SortedMap.get?_erase_of_ne _ hne] at hc
  · exact htouch.owned (h.owned k a (List.mem_of_mem_erase hk))
  · exact htouch.owned (h.planned entry hentry a hstage)

theorem promoteQueued (h : s.SingleRun) (refusals : ℕ → Option AppError) :
    (s.promoteQueued key refusals).SingleRun := by
  have hloop := promoteLoop_invariant key
    (I := fun s rest => SingleRun { s with queue := s.queue ++ rest }) refusals
    (fun _ _ _ _ hs => hs.promoteOne) 0 s.queue { s with queue := [] } h
  simp only [List.append_nil] at hloop
  exact hloop

/-- Promotion adds entries to the active map and overwrites none. -/
theorem promoteOne_keeps {rest : List ℕ} {refusal : Option AppError} {k a : ℕ}
    (h : SingleRun { s with queue := s.queue ++ j :: rest }) (hk : s.active.get? k = some a) :
    (s.promoteOne key j refusal).active.get? k = some a := by
  have hactive : s.active.get? j = none := h.queued j (by simp)
  rcases promoteOne_cases key s j refusal with
    ⟨heq, -⟩ | ⟨heq, -⟩ | ⟨-, registry, heq, -, -⟩ | ⟨-, row, hrow, -, -, heq⟩ <;> rw [heq]
  · exact hk
  · exact hk
  · exact hk
  · obtain ⟨r', -, hcases⟩ := launchJob_spec key hrow
      (fun a ha => h.wellFormed j row a hrow ha) .initial refusal
    rcases hcases with ⟨attempt, row', heq', -⟩ | ⟨e, heq', -⟩ <;> rw [heq']
    · -- the promoted job had no entry, so the new one is another job's
      have hne : k ≠ j := by
        rintro rfl
        rw [hactive] at hk
        cases hk
      exact (SortedMap.get?_insert_of_ne _ _ hne).trans hk
    · exact hk

theorem promoteQueued_keeps (h : s.SingleRun) (refusals : ℕ → Option AppError) {k a : ℕ}
    (hk : s.active.get? k = some a) :
    (s.promoteQueued key refusals).active.get? k = some a :=
  (promoteLoop_invariant key
    (I := fun s rest => SingleRun { s with queue := s.queue ++ rest } ∧
      s.active.get? k = some a) refusals
    (fun _ _ _ _ hs => ⟨hs.1.promoteOne, hs.1.promoteOne_keeps hs.2⟩)
    0 s.queue { s with queue := [] } ⟨h, hk⟩).2

/-! ### Planner steps -/

theorem recoverMark (h : s.SingleRun) (listed : JobRecord) {status : DurableJobStatus}
    (hopen : status.isTerminal = false) {onward : Actor → Actor}
    (honward : ∀ s, SingleRun s → (onward s).SingleRun) :
    (s.recoverMark j listed status onward).SingleRun := by
  unfold Actor.recoverMark
  split_ifs
  · exact honward s h
  · rcases hmark : s.registry.markStatus j status with e | r₁
    · exact h.plan [] RecoveryStage.classify_ne
    · exact honward _ (h.markStatus hmark hopen)

theorem recoverClassify (h : s.SingleRun) (listed : JobRecord) :
    (s.recoverClassify j listed).SingleRun := by
  unfold Actor.recoverClassify
  split
  · exact h.recoverMark listed rfl fun s hs => hs.plan s.recovery nofun
  · exact h.recoverMark listed rfl fun _ hs => hs.recoverNext
  · exact h.recoverNext

/-- The planner's new attempt belongs to the job it was begun for. -/
theorem recoverBegin (h : s.SingleRun) {listed : JobRecord} {rest : List (ℕ × JobRecord)}
    (hhead : s.recovery = (j, listed) :: rest) : (s.recoverBegin key j).SingleRun := by
  rcases recoverBegin_cases key s j with
    heq | heq | ⟨-, row, attempt, r', hrow, hget, htouch, hwf, hopen, heq⟩ <;> rw [heq]
  · exact h.plan [] RecoveryStage.classify_ne
  · exact h.recoverNext
  have h₁ : SingleRun { s with registry := r' } := by
    refine h.touch htouch (hwf h.wellFormed) fun hin => ?_
    obtain ⟨row', hrow', hterm⟩ := h.pending j hin
    rw [hrow] at hrow'
    cases hrow'
    exact ⟨_, hget, hterm⟩
  refine ⟨h₁.wellFormed, h₁.live_iff, h₁.nodup, h₁.queue_nodup, h₁.queued, h₁.pending, h₁.owned,
    fun entry hentry a hstage => ?_, h₁.slots⟩
  cases hstage
  rw [hhead] at hentry
  cases hentry
  exact hopen.owned

/-! ### Runs -/

/-- **The invariant is kept** when no job is admitted twice. -/
theorem step {e : SupervisorEvent} {s' : Actor} (h : s.SingleRun) (hok : s.entersOnce e)
    (hstep : supervisorStep key s e = some s') : s'.SingleRun := by
  cases e with
  | insertJob job =>
    simp only [supervisorStep] at hstep
    split_ifs at hstep with hin
    cases hstep
    have hnone := (get?_of_not_knows hin).1
    refine h.touch (j := job) (Registry.touches_putJob fun old hold => ?_)
      (h.wellFormed.insertJob job) fun _ => ⟨_, SortedMap.get?_insert_self .., rfl⟩
    rw [hnone] at hold
    cases hold
  | enqueue job refusal =>
    cases hstep
    exact (h.enqueue hok (fun _ ha => by cases ha) refusal).accept
  | pause job expected refusal =>
    cases hstep
    exact h.control expected .paused rfl refusal
  | resume job expected refusal =>
    cases hstep
    exact (h.control expected .running rfl refusal).accept
  | cancel job expected refusal =>
    cases hstep
    exact h.cancel expected refusal
  | retry job expected refusal =>
    cases hstep
    exact (h.retry expected refusal).accept
  | updateLimits activeDownloads | shutdown =>
    cases hstep
    exact ⟨h.wellFormed, h.live_iff, h.nodup, h.queue_nodup, h.queued, h.pending, h.owned,
      h.planned, h.slots⟩
  | completed job attempt outcome refusals =>
    simp only [supervisorStep] at hstep
    split_ifs at hstep with hmem
    cases hstep
    exact (h.ended hmem _).promoteQueued refusals
  | recoverList =>
    simp only [supervisorStep] at hstep
    split_ifs at hstep
    cases hstep
    exact h.plan _ RecoveryStage.classify_ne
  | recoverClassify =>
    simp only [supervisorStep] at hstep
    split at hstep <;> cases hstep
    exact h.recoverClassify _
  | recoverBegin =>
    simp only [supervisorStep] at hstep
    split at hstep <;> cases hstep
    rename_i hhead _
    exact h.recoverBegin hhead
  | recoverEnqueue refusal =>
    simp only [supervisorStep] at hstep
    split at hstep <;> cases hstep
    rename_i job listed rest attempt hhead hstage
    have hentry : (job, listed) ∈ s.recovery.head? := by rw [hhead]; rfl
    refine SingleRun.recoverNext (SingleRun.accept (h.enqueue (hok _ hentry) ?_ refusal))
    rintro a ⟨rfl⟩
    exact h.planned _ hentry attempt hstage

theorem start (h : s.Starts) : s.SingleRun where
  wellFormed := h.wellFormed
  live_iff := by simp [h.completions, h.active]
  nodup := by simp [h.completions]
  queue_nodup := by simp [h.queue]
  queued := by simp [h.queue]
  pending := by simp [h.queue, h.active, SortedMap.contains]
  owned := by simp [h.completions]
  planned := by simp [h.recovery]
  slots := by simp [h.launches]

end SingleRun

end Actor

/-- **One run per job.**  In every run in which a job is admitted only while it
neither runs nor waits, every reachable state has at most one live run per job,
the active map names exactly the live runs, the queue holds no job twice and no
active one, every launch found a free slot, and a completion removes the entry
of its own run and leaves all others. -/
theorem single_run (key : ℕ) (s : Actor)
    (h : Reach (supervisorStep key) (fun s e => s.entersOnce e) Actor.Starts s) :
    (s.completions.Nodup ∧
      ∀ job a b, (job, a) ∈ s.completions → (job, b) ∈ s.completions → a = b) ∧
    (∀ job attempt, (job, attempt) ∈ s.completions ↔ s.active.get? job = some attempt) ∧
    (s.queue.Nodup ∧ ∀ job ∈ s.queue, s.active.get? job = none) ∧
    (∀ l ∈ s.launches, l.liveRuns < l.maxActive) ∧
    (∀ job attempt outcome refusals s',
      supervisorStep key s (.completed job attempt outcome refusals) = some s' →
      s.active.get? job = some attempt ∧
        ∀ k a, k ≠ job → s.active.get? k = some a → s'.active.get? k = some a) := by
  have hrun : s.SingleRun :=
    h.invariant (fun _ h₀ => .start h₀) fun _ _ _ hs hok hstep => hs.step hok hstep
  refine ⟨⟨hrun.nodup, fun job a b ha hb => ?_⟩, hrun.live_iff,
    ⟨hrun.queue_nodup, hrun.queued⟩, hrun.slots, fun job attempt outcome refusals s' hstep => ?_⟩
  · rw [hrun.live_iff] at ha hb
    exact Option.some.inj (ha.symm.trans hb)
  · simp only [supervisorStep] at hstep
    split_ifs at hstep with hmem
    cases hstep
    refine ⟨(hrun.live_iff job attempt).mp hmem, fun k a hne hk => ?_⟩
    refine (hrun.ended hmem _).promoteQueued_keeps refusals ?_
    exact (SortedMap.get?_erase_of_ne _ hne).trans hk

/-! ### Admitting a job twice -/

/-- A process with an empty registry. -/
def Actor.fresh (maxActive : ℕ) : Actor where
  registry := ⟨.empty, []⟩
  active := .empty
  queue := []
  maxActive := maxActive
  shuttingDown := false
  completions := []
  recovery := []
  stage := .classify
  launches := []
  accepted := []

theorem Actor.starts_fresh (maxActive : ℕ) : (Actor.fresh maxActive).Starts :=
  ⟨fun _ _ _ h => by simp [Actor.fresh] at h, rfl, rfl, rfl, rfl, rfl, rfl, rfl, rfl⟩

/-- With one slot, a second job waits until the first completes. -/
def twoJobs : List SupervisorEvent :=
  [.insertJob 1, .insertJob 2, .enqueue 1 none, .enqueue 2 none,
    .completed 1 0 .completed fun _ => none]

/-- Only the running job may complete. -/
theorem single_run_two_jobs :
    ∃ s, runEvents (supervisorStep 0) (.fresh 1) twoJobs = some s ∧
      s.completions = [(2, 1)] ∧
      ∀ job attempt, (job, attempt) ∈ s.completions ↔ s.active.get? job = some attempt := by
  have hend : ((runEvents (supervisorStep 0) (.fresh 1) twoJobs).map fun s => s.completions) =
      some [(2, 1)] := by decide
  obtain ⟨s, hrun, hlive⟩ := Option.map_eq_some_iff.mp hend
  have hreach : Reach (supervisorStep 0) (fun s e => s.entersOnce e) Actor.Starts s :=
    .of_run (.start (Actor.starts_fresh 1)) (by decide) hrun
  exact ⟨s, hrun, hlive, (single_run 0 s hreach).2.1⟩

/-- A job enqueued twice runs twice, and the active map knows only the second
run. -/
theorem enqueued_twice_runs_twice :
    ¬ ∀ (key : ℕ) (s : Actor),
      Reach (supervisorStep key) (fun _ _ => True) Actor.Starts s →
      (s.completions.Nodup ∧
        ∀ job a b, (job, a) ∈ s.completions → (job, b) ∈ s.completions → a = b) ∧
      (∀ job attempt, (job, attempt) ∈ s.completions ↔ s.active.get? job = some attempt) ∧
      (s.queue.Nodup ∧ ∀ job ∈ s.queue, s.active.get? job = none) ∧
      (∀ l ∈ s.launches, l.liveRuns < l.maxActive) ∧
      (∀ job attempt outcome refusals s',
        supervisorStep key s (.completed job attempt outcome refusals) = some s' →
        s.active.get? job = some attempt ∧
          ∀ k a, k ≠ job → s.active.get? k = some a → s'.active.get? k = some a) := by
  intro h
  have hend : ((runEvents (supervisorStep 0) (.fresh 2)
      [.insertJob 1, .enqueue 1 none, .enqueue 1 none]).map fun s => s.completions) =
        some [(1, 0), (1, 1)] := by decide
  obtain ⟨s, hrun, hlive⟩ := Option.map_eq_some_iff.mp hend
  have hreach : Reach (supervisorStep 0) (fun _ _ => True) Actor.Starts s :=
    .of_run (.start (Actor.starts_fresh 2)) (by decide) hrun
  have hunique := (h 0 s hreach).1.2 1 0 1
  rw [hlive] at hunique
  exact absurd (hunique (by decide) (by decide)) (by decide)

end KDown
