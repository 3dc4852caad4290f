/-
KDown/SupervisorQueue.lean

No runnable job is stranded.

A job that is accepted, not terminal and wanted to run should be active or
queued (`Placed`), and no job that is wanted to run should wait in the queue
while a slot is open (`Promoted`).  Only the end of a run promotes from the
queue.  So a raised limit leaves runnable jobs waiting, and so does resuming a
queued job while a slot is open; resuming a job that is neither active nor
queued, such as one that recovery kept paused, leaves it nowhere.  The planner
can bring a finished job back to a status that nothing will change, because it
works on the list it took before.

`keepsRunnable` excludes these steps, and those that lose the outcome of a run.
-/
import KDown.SupervisorAttempts

namespace KDown

namespace Actor

variable {key : ℕ} {s : Actor} {j : ℕ} {r' : Registry} {answer : Option AppError × Actor}

/-! ### The condition -/

/-- The user wants the job to run. -/
def wantsRun (s : Actor) (job : ℕ) : Bool :=
  (s.registry.jobs.get? job).any fun row => row.desiredState = .running

/-- The job is active, queued, or terminal, and queued only while no slot is
open. -/
def resumable (s : Actor) (job : ℕ) : Prop :=
  (s.active.contains job = true ∨ job ∈ s.queue ∨ s.isTerminal job = true) ∧
    (job ∈ s.queue → s.maxActive ≤ s.active.length)

instance (s : Actor) (job : ℕ) : Decidable (s.resumable job) :=
  inferInstanceAs (Decidable (
    (s.active.contains job = true ∨ job ∈ s.queue ∨ s.isTerminal job = true) ∧
      (job ∈ s.queue → s.maxActive ≤ s.active.length)))

/-- The status the planner marks a listed job with, if any. -/
def planMark (listed : JobRecord) : Option DurableJobStatus :=
  match classify listed with
  | .resume => if listed.status = .recovering then none else some .recovering
  | .keepPaused => if listed.status = .paused then none else some .paused
  | .keepTerminal => none

/-- What limit changes, resumes and the planner may meet. -/
def keepsPlaces (s : Actor) : SupervisorEvent → Prop
  | .updateLimits activeDownloads =>
      s.active.length < activeDownloads → ∀ job ∈ s.queue, s.wantsRun job = false
  | .resume job expected _ =>
      (s.registry.compareAndSetDesired job expected .running).isOk = true → s.resumable job
  | .recoverClassify =>
      ∀ entry ∈ s.recovery.head?, (planMark entry.2).isSome = true → s.isTerminal entry.1 = false
  | _ => True

instance (s : Actor) : (e : SupervisorEvent) → Decidable (s.keepsPlaces e)
  | .updateLimits activeDownloads =>
      inferInstanceAs (Decidable (s.active.length < activeDownloads →
        ∀ job ∈ s.queue, s.wantsRun job = false))
  | .resume job expected _ =>
      inferInstanceAs (Decidable (
        (s.registry.compareAndSetDesired job expected .running).isOk = true → s.resumable job))
  | .recoverClassify =>
      inferInstanceAs (Decidable (∀ entry ∈ s.recovery.head?,
        (planMark entry.2).isSome = true → s.isTerminal entry.1 = false))
  | .insertJob _ | .enqueue _ _ | .pause _ _ _ | .cancel _ _ _ | .retry _ _ _
  | .completed _ _ _ _ | .shutdown | .recoverList | .recoverBegin | .recoverEnqueue _ =>
      .isTrue trivial

/-- Outcomes are recorded, and no step frees a slot or makes a job runnable
without a promotion. -/
def keepsRunnable (key : ℕ) (s : Actor) (e : SupervisorEvent) : Prop :=
  s.bindsAttempts key e ∧ (s.shuttingDown = false → s.keepsPlaces e)

instance (key : ℕ) (s : Actor) (e : SupervisorEvent) : Decidable (s.keepsRunnable key e) :=
  inferInstanceAs (Decidable (s.bindsAttempts key e ∧ (s.shuttingDown = false → s.keepsPlaces e)))

/-! ### The invariants -/

/-- Active or queued. -/
def HasPlace (s : Actor) (job : ℕ) : Prop := s.active.contains job = true ∨ job ∈ s.queue

theorem not_full (hrun : s.shuttingDown = false) (hslot : s.active.length < s.maxActive) :
    ¬ s.full = true := by
  simp [full, hrun, hslot]

/-- Every accepted job that can run has a place. -/
def Placed (s : Actor) : Prop :=
  s.shuttingDown = false → ∀ job ∈ s.accepted, ∀ row, s.registry.jobs.get? job = some row →
    row.status.isTerminal = false → row.desiredState = .running →
    row.controlVersion < maxControlVersion → s.HasPlace job

/-- While a slot is open, nothing in the queue wants to run. -/
def Promoted (s : Actor) : Prop :=
  s.shuttingDown = false → s.active.length < s.maxActive →
    ∀ job ∈ s.queue, ∀ row, s.registry.jobs.get? job = some row → row.desiredState ≠ .running

/-- The job's record went on, but not from a terminal status, and without a
change of the desired state. -/
def Continues (r r' : Registry) (job : ℕ) : Prop :=
  ∀ row', r'.jobs.get? job = some row' → ∃ row, r.jobs.get? job = some row ∧
    row'.desiredState = row.desiredState ∧ row.controlVersion ≤ row'.controlVersion ∧
    (row'.status.isTerminal = false → row.status.isTerminal = false)

theorem continues_markStatus {status : DurableJobStatus} {row : JobRecord}
    (hmark : s.registry.markStatus j status = .ok r') (hrow : s.registry.jobs.get? j = some row)
    (hopen : status.isTerminal = false → row.status.isTerminal = false) :
    Continues s.registry r' j := by
  obtain ⟨old, hold, hget⟩ := Registry.markStatus_row hmark
  rw [hrow] at hold
  cases hold
  intro row' hrow'
  rw [hget] at hrow'
  cases hrow'
  exact ⟨row, hrow, rfl, Nat.le_succ _, hopen⟩

/-- `Placed`, for all jobs but one. -/
def PlacedBut (s : Actor) (j : ℕ) : Prop :=
  s.shuttingDown = false → ∀ job ∈ s.accepted, job ≠ j →
    ∀ row, s.registry.jobs.get? job = some row → row.status.isTerminal = false →
    row.desiredState = .running → row.controlVersion < maxControlVersion → s.HasPlace job

/-- The remaining job changed; if it may run now, it has a place. -/
theorem PlacedBut.touch (h : s.PlacedBut j) (htouch : s.registry.Touches r' j)
    (hj : s.shuttingDown = false → j ∈ s.accepted → ∀ row, r'.jobs.get? j = some row →
      row.status.isTerminal = false → row.desiredState = .running →
      row.controlVersion < maxControlVersion → s.HasPlace j) :
    Placed { s with registry := r' } := by
  intro hrun k hk row hrow
  rcases eq_or_ne k j with rfl | hne
  · exact hj hrun hk row hrow
  · rw [htouch.others k hne] at hrow
    exact h hrun k hk hne row hrow

namespace Placed

theorem but (h : s.Placed) (j : ℕ) : s.PlacedBut j := fun hrun k hk _ => h hrun k hk

/-- Taking a job from the queue costs only its own place. -/
theorem dropQueued {rest : List ℕ} (h : Placed { s with queue := s.queue ++ j :: rest }) :
    PlacedBut { s with queue := s.queue ++ rest } j := by
  intro hrun k hk hne row hrow hopen hdes hv
  refine (h hrun k hk row hrow hopen hdes hv).imp_right fun hin => ?_
  simpa [hne] using hin

theorem touch (h : s.Placed) (htouch : s.registry.Touches r' j)
    (hj : s.shuttingDown = false → j ∈ s.accepted → ∀ row, r'.jobs.get? j = some row →
      row.status.isTerminal = false → row.desiredState = .running →
      row.controlVersion < maxControlVersion → s.HasPlace j) :
    Placed { s with registry := r' } := (h.but j).touch htouch hj

theorem continues (h : s.Placed) (htouch : s.registry.Touches r' j)
    (hcont : Continues s.registry r' j) : Placed { s with registry := r' } := by
  refine h.touch htouch fun hrun hk row' hrow' hopen hdes hv => ?_
  obtain ⟨row, hrow, hdes', hle, hterm⟩ := hcont row' hrow'
  exact h hrun j hk row hrow (hterm hopen) (hdes' ▸ hdes) (lt_of_le_of_lt hle hv)

/-- The job's desired state moved; if it may run now, it has a place. -/
theorem setDesired (h : s.Placed) {expected : ℕ} {desired : DesiredState}
    (hset : s.registry.compareAndSetDesired j expected desired = .ok r')
    (hplace : s.shuttingDown = false → desired = .running → s.isTerminal j = false →
      s.HasPlace j) : Placed { s with registry := r' } := by
  obtain ⟨old, hold, hget⟩ := Registry.compareAndSetDesired_row hset
  refine h.touch (Registry.touches_compareAndSetDesired hset)
    fun hrun _ row hrow hopen hdes _ => ?_
  rw [hget] at hrow
  cases hrow
  exact hplace hrun hdes (by simpa [isTerminal, hold] using hopen)

/-- More jobs in the queue, or entries in the active map, keep places. -/
theorem mono (h : s.Placed) {t : Actor} (hshut : t.shuttingDown = s.shuttingDown)
    (hacc : t.accepted = s.accepted) (hreg : t.registry = s.registry)
    (hplace : ∀ job, s.HasPlace job → t.HasPlace job) : t.Placed := by
  intro hrun k hk row hrow hopen hdes hv
  exact hplace k (h (hshut ▸ hrun) k (hacc ▸ hk) row (hreg ▸ hrow) hopen hdes hv)

theorem accept (h : Placed answer.2)
    (hj : answer.1 = none → answer.2.shuttingDown = false → ∀ row,
      answer.2.registry.jobs.get? j = some row → row.status.isTerminal = false →
      row.desiredState = .running → answer.2.HasPlace j) :
    (Actor.accept j answer).Placed := by
  unfold Actor.accept
  split
  · rename_i hnone
    intro hrun k hk row hrow hopen hdes hv
    rcases List.mem_cons.mp hk with rfl | hk
    · exact hj hnone hrun row hrow hopen hdes
    · exact h hrun k hk row hrow hopen hdes hv
  · exact h

end Placed

namespace Promoted

theorem touch (h : s.Promoted) (htouch : s.registry.Touches r' j)
    (hj : s.shuttingDown = false → s.active.length < s.maxActive → j ∈ s.queue → ∀ row,
      r'.jobs.get? j = some row → row.desiredState ≠ .running) :
    Promoted { s with registry := r' } := by
  intro hrun hslot k hk row hrow
  rcases eq_or_ne k j with rfl | hne
  · exact hj hrun hslot hk row hrow
  · rw [htouch.others k hne] at hrow
    exact h hrun hslot k hk row hrow

theorem continues (h : s.Promoted) (htouch : s.registry.Touches r' j)
    (hcont : Continues s.registry r' j) : Promoted { s with registry := r' } := by
  refine h.touch htouch fun hrun hslot hk row' hrow' => ?_
  obtain ⟨row, hrow, hdes, -⟩ := hcont row' hrow'
  exact hdes ▸ h hrun hslot j hk row hrow

theorem setDesired (h : s.Promoted) {expected : ℕ} {desired : DesiredState}
    (hset : s.registry.compareAndSetDesired j expected desired = .ok r')
    (hplace : s.shuttingDown = false → s.active.length < s.maxActive → j ∈ s.queue →
      desired ≠ .running) : Promoted { s with registry := r' } := by
  obtain ⟨old, -, hget⟩ := Registry.compareAndSetDesired_row hset
  refine h.touch (Registry.touches_compareAndSetDesired hset) fun hrun hslot hk row hrow => ?_
  rw [hget] at hrow
  cases hrow
  exact hplace hrun hslot hk

/-- With no slot open anything may be queued. -/
theorem of_full {t : Actor} (hfull : t.full = true) : t.Promoted :=
  fun hrun hslot => absurd hfull (not_full hrun hslot)

theorem shrink (h : s.Promoted) {queue : List ℕ} (hsub : queue ⊆ s.queue) :
    Promoted { s with queue := queue } :=
  fun hrun hslot k hk => h hrun hslot k (hsub hk)

theorem accept (h : Promoted answer.2) : (Actor.accept j answer).Promoted := by
  unfold Actor.accept
  split
  · exact h
  · exact h

end Promoted

/-! ### Launching -/

theorem hasPlace_register (s : Actor) (j attempt : ℕ) : (s.register j attempt).HasPlace j :=
  .inl (by simp [Actor.register, SortedMap.contains])

theorem HasPlace.register {k : ℕ} (h : s.HasPlace k) (j attempt : ℕ) :
    (s.register j attempt).HasPlace k := by
  refine h.imp_left fun hc => ?_
  by_cases hkj : k = j
  · subst hkj
    simp [Actor.register, SortedMap.contains]
  · simpa [Actor.register, SortedMap.contains, SortedMap.get?_insert_of_ne _ _ hkj] using hc

/-- A launch under an open attempt gives the job a place or ends it. -/
theorem PlacedBut.launchJob (h : s.PlacedBut j) (key : ℕ) {record : JobRecord}
    (hjob : s.registry.jobs.get? j = some record) (prebound : Option ℕ)
    (hopen : ∀ a, prebound = some a → s.registry.Open a j) (reason : AttemptReason)
    (refusal : Option AppError) :
    Placed (s.launchJob key j reason prebound refusal).2 ∧
      ((s.launchJob key j reason prebound refusal).1 = none →
        HasPlace (s.launchJob key j reason prebound refusal).2 j) := by
  obtain ⟨r', heffect, hcases⟩ :=
    launchJob_spec key hjob (fun a ha => (hopen a ha).owned) reason refusal
  rcases hcases with ⟨attempt, row, heq, -⟩ | ⟨e, heq, hfailed⟩ <;> rw [heq]
  · refine ⟨fun hrun k hk row hrow hterm hdes hv => ?_, fun _ => hasPlace_register _ j attempt⟩
    by_cases hkj : k = j
    · subst hkj
      exact hasPlace_register _ k attempt
    · have hrow' : s.registry.jobs.get? k = some row := (heffect.touches.others k hkj) ▸ hrow
      have hplace : HasPlace { s with registry := r' } k := h hrun k hk hkj row hrow' hterm hdes hv
      exact hplace.register j attempt
  · -- the failed launch was recorded, so the job needs no place
    refine ⟨h.touch heffect.touches fun _ _ row hrow hterm _ hv => ?_, nofun⟩
    rw [hfailed hopen row hrow hv] at hterm
    cases hterm

theorem Promoted.launchJob (h : s.Promoted) (key : ℕ) {record : JobRecord}
    (hjob : s.registry.jobs.get? j = some record) (prebound : Option ℕ)
    (hpre : ∀ a, prebound = some a → s.registry.Owned a j) (hqueue : j ∉ s.queue)
    (reason : AttemptReason) (refusal : Option AppError) :
    Promoted (s.launchJob key j reason prebound refusal).2 := by
  obtain ⟨r', heffect, hcases⟩ := launchJob_spec key hjob hpre reason refusal
  have htouched : Promoted { s with registry := r' } :=
    h.touch heffect.touches fun _ _ hin => absurd hin hqueue
  rcases hcases with ⟨attempt, row, heq, -⟩ | ⟨e, heq, -⟩ <;> rw [heq]
  · -- a slot that is open after the launch was open before it
    intro hrun hslot
    exact htouched hrun (lt_of_le_of_lt (SortedMap.length_le_length_insert _ _ _) hslot)
  · exact htouched

/-! ### Handlers -/

/-- Runs are bound to their attempts, and runnable jobs have their places. -/
structure Runnable (s : Actor) : Prop where
  bound : s.BoundRuns
  placed : s.Placed
  promoted : s.Promoted

namespace Runnable

/-- **An enqueued job runs or waits in the queue.** -/
theorem enqueue (h : s.Runnable) {prebound : Option ℕ}
    (hok : s.isTerminal j = false → s.admits j)
    (hpre : s.isTerminal j = false → s.full = false → ∀ a, prebound = some a →
      s.registry.Open a j ∧ s.notLive a) (refusal : Option AppError) :
    (Actor.accept j (s.enqueue key j prebound refusal)).Runnable := by
  have hbound : BoundRuns (Actor.accept j (s.enqueue key j prebound refusal)) :=
    (h.bound.enqueue hok hpre refusal).accept
  rcases enqueue_cases key s j prebound refusal with
    ⟨e, heq⟩ | ⟨row, hrow, hterm, ⟨hfull, heq⟩ | ⟨hfull, heq⟩⟩ <;> rw [heq] at hbound ⊢
  · exact h
  · refine ⟨hbound, Placed.accept ?_ fun _ _ _ _ _ _ => .inr (by simp),
      Promoted.accept (Promoted.of_full hfull)⟩
    exact h.placed.mono rfl rfl rfl fun k hk => hk.imp_right (List.mem_append_left _)
  · have hnot : s.isTerminal j = false := by simpa [isTerminal, hrow] using hterm
    have hopen : ∀ a, prebound = some a → s.registry.Open a j :=
      fun a ha => (hpre hnot hfull a ha).1
    have hqueue := ((hok hnot).resolve_left (by simp [BoundRuns.running_of_not_full hfull])).1
    obtain ⟨hplaced, hplace⟩ :=
      (h.placed.but j).launchJob key hrow prebound hopen .initial refusal
    exact ⟨hbound, hplaced.accept fun hnone _ _ _ _ _ => hplace hnone,
      (h.promoted.launchJob key hrow prebound (fun a ha => (hopen a ha).owned) hqueue _ _).accept⟩

/-- Pausing and resuming; a job that is made to run has a place, and waits only
while no slot is open. -/
theorem control (h : s.Runnable) (expected : ℕ) {desired : DesiredState}
    (status : DurableJobStatus)
    (hok : s.shuttingDown = false → desired = .running →
      (s.registry.compareAndSetDesired j expected desired).isOk = true → s.resumable j)
    (refusal : Option AppError) :
    (s.control j expected desired status refusal).2.Runnable := by
  have hbound : BoundRuns (s.control j expected desired status refusal).2 :=
    h.bound.control expected desired status refusal
  rcases control_cases s j expected desired status refusal with ⟨e, heq⟩ | ⟨r₁, hset, hcases⟩
  · rw [heq]
    exact h
  have hplaced : Placed { s with registry := r₁ } := by
    refine h.placed.setDesired hset fun hrun hdes hterm => ?_
    rcases (hok hrun hdes (by rw [hset]; rfl)).1 with hact | hin | hterm'
    · exact .inl hact
    · exact .inr hin
    · rw [hterm] at hterm'
      cases hterm'
  have hpromoted : Promoted { s with registry := r₁ } := by
    refine h.promoted.setDesired hset fun hrun hslot hin hdes => ?_
    have := (hok hrun hdes (by rw [hset]; rfl)).2 hin
    omega
  rcases hcases with ⟨e, heq⟩ | ⟨-, heq⟩ | ⟨hactive, r₂, hmark, heq⟩ <;> rw [heq] at hbound ⊢
  · exact ⟨hbound, hplaced, hpromoted⟩
  · exact ⟨hbound, hplaced, hpromoted⟩
  · have htouch := Registry.touches_markStatus hmark
    refine ⟨hbound, hplaced.touch htouch fun _ _ _ _ _ _ _ => .inl hactive,
      hpromoted.touch htouch fun hrun hslot hin row hrow => ?_⟩
    obtain ⟨old, hold, hget⟩ := Registry.markStatus_row hmark
    rw [hget] at hrow
    cases hrow
    exact hpromoted hrun hslot j hin old hold

/-- During shutdown only the attempts matter. -/
theorem of_shutdown (hbound : s.BoundRuns) (hdown : s.shuttingDown = true) : s.Runnable := by
  refine ⟨hbound, fun hrun => ?_, fun hrun => ?_⟩
  · rw [hdown] at hrun
    cases hrun
  · rw [hdown] at hrun
    cases hrun

/-- A milestone on a job that is not terminal, or that becomes terminal. -/
theorem markStatus (h : s.Runnable) (hbound : BoundRuns { s with registry := r' })
    {status : DurableJobStatus} (hmark : s.registry.markStatus j status = .ok r')
    (hopen : s.shuttingDown = false → status.isTerminal = false → s.isTerminal j = false) :
    Runnable { s with registry := r' } := by
  rcases Bool.eq_false_or_eq_true s.shuttingDown with hdown | hdown
  · exact of_shutdown hbound hdown
  obtain ⟨row, hrow, -⟩ := Registry.markStatus_eq_ok hmark
  have hcont : Continues s.registry r' j :=
    continues_markStatus hmark hrow fun hs => by simpa [isTerminal, hrow] using hopen hdown hs
  have htouch := Registry.touches_markStatus hmark
  exact ⟨hbound, h.placed.continues htouch hcont, h.promoted.continues htouch hcont⟩

/-- A cancellation leaves the other jobs in their places. -/
theorem cancel (h : s.Runnable) (expected : ℕ) (refusal : Option AppError) :
    (s.cancel j expected refusal).2.Runnable := by
  rcases cancel_cases s j expected refusal with ⟨e, heq⟩ | ⟨r₁, hset, hcases⟩
  · rw [heq]
    exact h
  have h₁ : Runnable { s with registry := r₁ } :=
    ⟨h.bound.setDesired hset, h.placed.setDesired hset (fun _ hdes => by cases hdes),
      h.promoted.setDesired hset (fun _ _ _ hdes => by cases hdes)⟩
  rcases hcases with heq | ⟨-, r₂, hmark, heq⟩ <;> rw [heq]
  · exact h₁
  have h₂ : Runnable { s with registry := r₁, queue := s.queue.filter (· ≠ j) } := by
    refine ⟨h₁.bound.shrink List.filter_sublist, ?_, h₁.promoted.shrink List.filter_sublist.subset⟩
    intro hrun k hk row hrow hopen hdes hv
    have hne : k ≠ j := by
      -- the job itself is not wanted to run any more
      rintro rfl
      obtain ⟨old, -, hget⟩ := Registry.compareAndSetDesired_row hset
      rw [hget] at hrow
      cases hrow
      cases hdes
    refine (h₁.placed hrun k hk row hrow hopen hdes hv).imp_right fun hin => ?_
    exact List.mem_filter.mpr ⟨hin, by simpa using hne⟩
  rcases hmark with rfl | hmark
  · exact h₂
  · refine h₂.markStatus (h₂.bound.markStatus hmark fun hact => ?_) hmark fun _ hopen => ?_
    · cases hact
    · cases hopen

/-- A job that is retried is enqueued again. -/
theorem retry (h : s.Runnable) (expected : ℕ)
    (hok : s.isTerminal j = true →
      (s.registry.compareAndSetDesired j expected .running).isOk = true → s.admits j)
    (refusal : Option AppError) :
    (Actor.accept j (s.retry key j expected refusal)).Runnable := by
  have hbound : BoundRuns (Actor.accept j (s.retry key j expected refusal)) :=
    (h.bound.retry expected hok refusal).accept
  rcases retry_cases key s j expected refusal with
    ⟨e, heq⟩ | ⟨row, r₁, hrow, hterm, hset, hcases⟩
  · rw [heq]
    exact h
  have hjterm : s.isTerminal j = true := by simpa [isTerminal, hrow] using hterm
  have hadmits := hok hjterm (by rw [hset]; rfl)
  have hplaced : Placed { s with registry := r₁ } := by
    refine h.placed.setDesired hset fun _ _ hnot => ?_
    rw [hjterm] at hnot
    cases hnot
  have hpromoted : Promoted { s with registry := r₁ } := by
    refine h.promoted.setDesired hset fun hrun _ hin _ => ?_
    exact (hadmits.resolve_left (by simp [hrun])).1 hin
  rcases hcases with ⟨e, heq⟩ | ⟨hfull, r₂, hmark, heq⟩ | ⟨hfull, heq⟩ <;> rw [heq] at hbound ⊢
  · exact ⟨hbound, hplaced, hpromoted⟩
  · refine ⟨hbound, Placed.accept ?_ fun _ _ _ _ _ _ => .inr (by simp),
      Promoted.accept (Promoted.of_full hfull)⟩
    intro hrun k hk row hget hopen hdes hv
    by_cases hkj : k = j
    · subst hkj
      exact .inr (by simp)
    · have hget' : r₁.jobs.get? k = some row :=
        ((Registry.touches_markStatus hmark).others k hkj) ▸ hget
      exact (hplaced hrun k hk row hget' hopen hdes hv).imp_right (List.mem_append_left _)
  · obtain ⟨old, -, hget⟩ := Registry.compareAndSetDesired_row hset
    have hqueue := (hadmits.resolve_left (by simp [BoundRuns.running_of_not_full hfull])).1
    obtain ⟨hplaced', hplace⟩ := (hplaced.but j).launchJob key hget none
      (fun _ ha => by cases ha) .retry refusal
    exact ⟨hbound, hplaced'.accept fun hnone _ _ _ _ _ => hplace hnone,
      (hpromoted.launchJob key hget none (fun _ ha => by cases ha) hqueue _ _).accept⟩

end Runnable

/-! ### Promotion -/

/-- The state inside the promotion loop: with the rest of the queue still to
come, runnable jobs have their places, and what stays behind may not run while
a slot is open. -/
structure Promoting (s : Actor) (rest : List ℕ) : Prop where
  bound : BoundRuns { s with queue := s.queue ++ rest }
  placed : Placed { s with queue := s.queue ++ rest }
  promoted : s.Promoted

/-- **One job of the queue is promoted**, or left behind where it may not run. -/
theorem Promoting.step {rest : List ℕ} {refusal : Option AppError}
    (h : s.Promoting (j :: rest)) : (s.promoteOne key j refusal).Promoting rest := by
  have hbound : BoundRuns { s.promoteOne key j refusal with
      queue := (s.promoteOne key j refusal).queue ++ rest } := h.bound.promoteOne
  have hrest : PlacedBut { s with queue := s.queue ++ rest } j := h.placed.dropQueued
  -- a job is dropped for a reason why it may not run
  have hdrop : (∀ row, s.registry.jobs.get? j = some row → row.status.isTerminal = false →
      row.desiredState ≠ .running) → Placed { s with queue := s.queue ++ rest } :=
    fun hout => hrest.touch (.refl s.registry j) fun _ _ row hrow hopen hdes _ =>
      absurd hdes (hout row hrow hopen)
  rcases promoteOne_cases key s j refusal with
    ⟨heq, hstay⟩ | ⟨heq, hgone⟩ | ⟨-, registry, heq, hmark, row, hrow, hdes⟩ |
    ⟨hfull, row, hrow, -, -, heq⟩ <;> rw [heq] at hbound ⊢
  · refine ⟨hbound, by simpa using h.placed, fun hrun hslot k hk row hrow => ?_⟩
    rcases List.mem_append.mp hk with hk | hk
    · exact h.promoted hrun hslot k hk row hrow
    · -- it stays because no slot is open, or because it is paused
      rw [List.mem_singleton.mp hk] at hrow
      rcases hstay with hfull | ⟨row', hrow', hpaused⟩
      · exact absurd hfull (not_full hrun hslot)
      · rw [hrow] at hrow'
        cases hrow'
        rw [hpaused]
        nofun
  · refine ⟨hbound, hdrop fun row hrow hopen hdes => ?_, h.promoted⟩
    rcases hgone row hrow with hterm | ⟨hcancelled, -⟩
    · rw [hopen] at hterm
      cases hterm
    · rw [hdes] at hcancelled
      cases hcancelled
  · have hcont : Continues s.registry registry j := continues_markStatus hmark hrow nofun
    have htouch := Registry.touches_markStatus hmark
    refine ⟨hbound, (hdrop fun row' hrow' _ hdes' => ?_).continues htouch hcont,
      h.promoted.continues htouch hcont⟩
    rw [hrow] at hrow'
    cases hrow'
    rw [hdes] at hdes'
    cases hdes'
  · have hrun := BoundRuns.running_of_not_full hfull
    have hin : j ∈ s.queue ++ j :: rest := by simp
    have hopen : ∀ a, row.currentAttemptId = some a → s.registry.Open a j :=
      fun a ha => h.bound.queued_open hrun j hin row a hrow ha
    have hnot : j ∉ s.queue := fun hj =>
      (List.nodup_cons.mp (List.nodup_middle.mp (h.bound.queue_nodup hrun))).1
        (List.mem_append_left _ hj)
    refine ⟨hbound, ?_, h.promoted.launchJob key hrow _ (fun a ha => (hopen a ha).owned) hnot _ _⟩
    rw [launchJob_keeps_queue, ← launchJob_queue]
    exact (hrest.launchJob key hrow _ hopen _ _).1

/-- The end of a run takes the job's place away and its reason to have one. -/
theorem Runnable.ended (h : s.Runnable) {attempt : ℕ} (hmem : (j, attempt) ∈ s.completions)
    {outcome : AttemptOutcome}
    (houtcome : s.shuttingDown = false → ∃ status, outcome.status = some status) :
    Promoting { s with
      completions := s.completions.erase (j, attempt)
      registry := s.registry.recordOutcome attempt outcome
      active := s.active.erase j
      queue := [] } s.queue := by
  obtain ⟨record, hat, hjob, -⟩ := h.bound.live j attempt hmem
  have htouch := Registry.touches_recordOutcome outcome hat hjob
  refine ⟨h.bound.ended hmem houtcome, fun hrun k hk row hrow hopen hdes hv => ?_,
    fun _ _ k hk => absurd hk (List.not_mem_nil)⟩
  -- the outcome was recorded, so the job itself is terminal now
  have hne : k ≠ j := by
    rintro rfl
    obtain ⟨status, hstatus⟩ := houtcome hrun
    have hrowstatus := Registry.recordOutcome_status (h.bound.live k attempt hmem) hstatus hrow hv
    rw [hrowstatus, AttemptOutcome.isTerminal_of_status hstatus] at hopen
    cases hopen
  rw [htouch.others k hne] at hrow
  refine (h.placed hrun k hk row hrow hopen hdes hv).imp_left fun hc => ?_
  rwa [SortedMap.contains, SortedMap.get?_erase_of_ne _ hne]

theorem Promoting.finish {refusals : ℕ → Option AppError} {queue : List ℕ}
    (h : s.Promoting queue) : (promoteLoop key refusals 0 queue s).Runnable := by
  have hloop := promoteLoop_invariant key (I := Promoting) refusals
    (fun _ _ _ _ hs => hs.step) 0 queue s h
  obtain ⟨hbound, hplaced, hpromoted⟩ := hloop
  simp only [List.append_nil] at hbound hplaced
  exact ⟨hbound, hplaced, hpromoted⟩

namespace Runnable

/-! ### Planner steps -/

theorem plan (h : s.Runnable) (recovery : List (ℕ × JobRecord)) {stage : RecoveryStage}
    (hstage : ∀ a, stage ≠ .enqueue a) :
    Runnable { s with recovery := recovery, stage := stage } :=
  ⟨h.bound.plan recovery hstage, h.placed, h.promoted⟩

theorem recoverNext (h : s.Runnable) : s.recoverNext.Runnable := h.plan _ RecoveryStage.classify_ne

theorem recoverMark (h : s.Runnable) {listed : JobRecord} {status : DurableJobStatus}
    (hstatus : status ≠ .active)
    (hopen : s.shuttingDown = false → listed.status ≠ status → s.isTerminal j = false)
    {onward : Actor → Actor} (honward : ∀ s, Runnable s → (onward s).Runnable) :
    (s.recoverMark j listed status onward).Runnable := by
  unfold Actor.recoverMark
  by_cases hsame : listed.status = status
  · rw [if_pos hsame]
    exact honward s h
  rw [if_neg hsame]
  rcases hmark : s.registry.markStatus j status with e | r₁
  · exact h.plan [] RecoveryStage.classify_ne
  · refine honward _ (h.markStatus (h.bound.markStatus hmark fun hact => absurd hact hstatus)
      hmark fun hrun _ => hopen hrun hsame)

theorem recoverClassify (h : s.Runnable) {listed : JobRecord}
    (hopen : s.shuttingDown = false → (planMark listed).isSome = true → s.isTerminal j = false) :
    (s.recoverClassify j listed).Runnable := by
  unfold Actor.recoverClassify
  unfold planMark at hopen
  rcases hclass : classify listed with _ | _ | _ <;> simp only [hclass] at hopen ⊢
  · exact h.recoverMark (by decide) (fun hrun hne => hopen hrun (by rw [if_neg hne]; rfl))
      fun s hs => hs.plan s.recovery (fun _ ha => by cases ha)
  · exact h.recoverMark (by decide) (fun hrun hne => hopen hrun (by rw [if_neg hne]; rfl))
      fun _ hs => hs.recoverNext
  · exact h.recoverNext

theorem recoverBegin (h : s.Runnable) {listed : JobRecord} {rest : List (ℕ × JobRecord)}
    (hhead : s.recovery = (j, listed) :: rest)
    (hok : s.registry.attemptByLaunchKey j key = none → ∀ run ∈ s.completions, run.1 ≠ j) :
    (s.recoverBegin key j).Runnable := by
  have hbound : (s.recoverBegin key j).BoundRuns := h.bound.recoverBegin hhead hok
  rcases recoverBegin_cases key s j with
    heq | heq | ⟨-, row, attempt, r', hrow, hget, htouch, -, -, heq⟩ <;> rw [heq] at hbound ⊢
  · exact h.plan [] RecoveryStage.classify_ne
  · exact h.recoverNext
  · -- only the current attempt of the job is new
    have hcont : Continues s.registry r' j := by
      intro row' hrow'
      rw [hget] at hrow'
      cases hrow'
      exact ⟨row, hrow, rfl, le_rfl, id⟩
    exact ⟨hbound, h.placed.continues htouch hcont, h.promoted.continues htouch hcont⟩

/-! ### Runs -/

/-- A job that is resumed is enqueued again. -/
theorem resume (h : s.Runnable) (expected : ℕ)
    (hok : s.shuttingDown = false →
      (s.registry.compareAndSetDesired j expected .running).isOk = true → s.resumable j)
    (refusal : Option AppError) :
    (Actor.accept j (s.resume j expected refusal)).Runnable := by
  have h₁ : (s.resume j expected refusal).2.Runnable :=
    h.control expected .active (fun hrun _ => hok hrun) refusal
  refine ⟨h₁.bound.accept, h₁.placed.accept fun hnone hrun row hrow hopen _ => ?_,
    h₁.promoted.accept⟩
  unfold Actor.resume at hnone hrun hrow ⊢
  rcases control_cases s j expected .running .active refusal with
    ⟨e, heq⟩ | ⟨r₁, hset, ⟨e, heq⟩ | ⟨-, heq⟩ | ⟨hactive, r₂, -, heq⟩⟩ <;>
    rw [heq] at hnone hrun hrow ⊢
  · cases hnone
  · cases hnone
  · rcases (hok hrun (by rw [hset]; rfl)).1 with hact | hin | hterm
    · exact .inl hact
    · exact .inr hin
    · -- without a run the status is the one the resume found
      obtain ⟨old, hold, hget⟩ := Registry.compareAndSetDesired_row hset
      rw [hget] at hrow
      cases hrow
      simp [isTerminal, hold, hopen] at hterm
  · exact .inl hactive

/-- **The invariant is kept** when no slot is left open without a promotion. -/
theorem step {e : SupervisorEvent} {s' : Actor} (h : s.Runnable) (hok : s.keepsRunnable key e)
    (hstep : supervisorStep key s e = some s') : s'.Runnable := by
  have hbound : s'.BoundRuns := h.bound.step hok.1 hstep
  obtain ⟨hbinds, hplaces⟩ := hok
  cases e with
  | insertJob job =>
    simp only [supervisorStep] at hstep
    split_ifs at hstep with hin
    cases hstep
    obtain ⟨hnone, hqueue, haccepted⟩ := get?_of_not_knows hin
    have htouch : s.registry.Touches (s.registry.insertJob job) job :=
      Registry.touches_putJob fun old hold => by
        rw [hnone] at hold
        cases hold
    exact ⟨hbound, h.placed.touch htouch fun _ hacc => absurd hacc haccepted,
      h.promoted.touch htouch fun _ _ hin => absurd hin hqueue⟩
  | enqueue job refusal =>
    cases hstep
    exact h.enqueue hbinds (fun _ _ _ ha => by cases ha) refusal
  | pause job expected refusal =>
    cases hstep
    exact h.control expected .paused (fun _ hdes => by cases hdes) refusal
  | resume job expected refusal =>
    cases hstep
    exact h.resume expected hplaces refusal
  | cancel job expected refusal =>
    cases hstep
    exact h.cancel expected refusal
  | retry job expected refusal =>
    cases hstep
    exact h.retry expected hbinds refusal
  | updateLimits activeDownloads =>
    cases hstep
    refine ⟨hbound, h.placed, fun hrun hslot k hk row hrow hdes => ?_⟩
    have hwants := hplaces hrun hslot k hk
    simp [wantsRun, show s.registry.jobs.get? k = some row from hrow, hdes] at hwants
  | shutdown =>
    cases hstep
    exact of_shutdown hbound rfl
  | completed job attempt outcome refusals =>
    simp only [supervisorStep] at hstep
    split_ifs at hstep with hmem
    cases hstep
    exact (h.ended hmem (BoundRuns.attemptOutcome_status outcome)).finish
  | recoverList =>
    simp only [supervisorStep] at hstep
    split_ifs at hstep
    cases hstep
    exact h.plan _ RecoveryStage.classify_ne
  | recoverClassify =>
    simp only [supervisorStep] at hstep
    split at hstep <;> cases hstep
    rename_i job listed rest hhead _
    exact h.recoverClassify fun hrun => hplaces hrun (job, listed) (by rw [hhead]; rfl)
  | recoverBegin =>
    simp only [supervisorStep] at hstep
    split at hstep <;> cases hstep
    rename_i job listed rest hhead _
    exact h.recoverBegin hhead (hbinds (job, listed) (by rw [hhead]; rfl))
  | recoverEnqueue refusal =>
    simp only [supervisorStep] at hstep
    split at hstep <;> cases hstep
    rename_i job listed rest attempt hhead hstage
    have hentry : (job, listed) ∈ s.recovery.head? := by rw [hhead]; rfl
    refine recoverNext (h.enqueue (fun hterm => (hbinds _ hentry hterm).1)
      (fun hterm hfull a ha => ?_) refusal)
    cases ha
    exact h.bound.planned_open hentry hstage ((hbinds _ hentry hterm).2 hfull)

theorem start (h : s.Starts) : s.Runnable :=
  ⟨.start h, by simp [Placed, h.accepted], by simp [Promoted, h.queue]⟩

end Runnable

end Actor

/-- **No stranded job.**  In every run whose steps meet `keepsRunnable`, every
state outside shutdown has each accepted job that is not terminal and wanted to
run in the active map or in the queue, and while a slot is open no queued job
is wanted to run.  A job whose control version reached the cap, so that the
registry refuses to mark it, is left out of the first part. -/
theorem no_stranded_job (key : ℕ) (s : Actor)
    (h : Reach (supervisorStep key) (fun s e => s.keepsRunnable key e) Actor.Starts s)
    (hrun : s.shuttingDown = false) :
    (∀ job ∈ s.accepted, ∀ row, s.registry.jobs.get? job = some row →
      row.status.isTerminal = false → row.desiredState = .running →
      row.controlVersion < maxControlVersion →
      s.active.contains job = true ∨ job ∈ s.queue) ∧
    (s.active.length < s.maxActive → ∀ job ∈ s.queue, ∀ row,
      s.registry.jobs.get? job = some row → row.desiredState ≠ .running) := by
  have hrunnable : s.Runnable :=
    h.invariant (fun _ h₀ => .start h₀) fun _ _ _ hs hok hstep => hs.step hok hstep
  exact ⟨hrunnable.placed hrun, hrunnable.promoted hrun⟩

/-! ### A raised limit -/

/-- Of two waiting jobs one is paused; the end of the first run promotes the
other. -/
def pausedInQueue : List SupervisorEvent :=
  [.insertJob 1, .insertJob 2, .insertJob 3, .enqueue 1 none, .enqueue 2 none, .enqueue 3 none,
    .pause 2 1 none, .completed 1 0 .completed fun _ => none]

/-- At the end of the run no job is stranded. -/
theorem no_stranded_job_paused :
    ∃ s, runEvents (supervisorStep 0) (.fresh 1) pausedInQueue = some s ∧
      s.shuttingDown = false ∧ s.queue = [2] ∧ s.accepted = [3, 2, 1] ∧
      ∀ job ∈ s.accepted, ∀ row, s.registry.jobs.get? job = some row →
        row.status.isTerminal = false → row.desiredState = .running →
        row.controlVersion < maxControlVersion →
        s.active.contains job = true ∨ job ∈ s.queue := by
  have hend : ((runEvents (supervisorStep 0) (.fresh 1) pausedInQueue).map fun s =>
      (s.shuttingDown, s.queue, s.accepted)) = some (false, [2], [3, 2, 1]) := by decide
  obtain ⟨s, hrun, hfields⟩ := Option.map_eq_some_iff.mp hend
  simp only [Prod.mk.injEq] at hfields
  have hreach : Reach (supervisorStep 0) (fun s e => s.keepsRunnable 0 e) Actor.Starts s :=
    .of_run (.start (Actor.starts_fresh 1)) (by decide) hrun
  exact ⟨s, hrun, hfields.1, hfields.2.1, hfields.2.2, (no_stranded_job 0 s hreach hfields.1).1⟩

/-- The limit is raised while a job waits. -/
def raisedLimit : List SupervisorEvent :=
  [.insertJob 1, .insertJob 2, .enqueue 1 none, .enqueue 2 none, .updateLimits 2]

/-- Nothing promotes the waiting job into the slot the new limit opened. -/
theorem raised_limit_strands_job :
    ¬ ∀ (key : ℕ) (s : Actor),
      Reach (supervisorStep key) (fun _ _ => True) Actor.Starts s → s.shuttingDown = false →
      (∀ job ∈ s.accepted, ∀ row, s.registry.jobs.get? job = some row →
        row.status.isTerminal = false → row.desiredState = .running →
        row.controlVersion < maxControlVersion →
        s.active.contains job = true ∨ job ∈ s.queue) ∧
      (s.active.length < s.maxActive → ∀ job ∈ s.queue, ∀ row,
        s.registry.jobs.get? job = some row → row.desiredState ≠ .running) := by
  intro h
  have hend : ((runEvents (supervisorStep 0) (.fresh 1) raisedLimit).map fun s =>
      (s.shuttingDown, s.queue, decide (s.active.length < s.maxActive), s.registry.jobs.get? 2)) =
        some (false, [2], true, some ⟨.running, .queued, 1, none⟩) := by decide
  obtain ⟨s, hrun, hfields⟩ := Option.map_eq_some_iff.mp hend
  simp only [Prod.mk.injEq, decide_eq_true_eq] at hfields
  obtain ⟨hup, hqueue, hslot, hrow⟩ := hfields
  have hreach : Reach (supervisorStep 0) (fun _ _ => True) Actor.Starts s :=
    .of_run (.start (Actor.starts_fresh 1)) (by decide) hrun
  exact (h 0 s hreach hup).2 hslot 2 (by simp [hqueue]) _ hrow rfl

end KDown
