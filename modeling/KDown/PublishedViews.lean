/-
KDown/PublishedViews.lean

The order of published views.

The sequence number of a job's samples lives in its active run and goes with
it; afterwards milestones of the same attempt carry the number 0 again.  And
the sampler shows the copy a run carries, which pause and resume load again and
cancel does not.  `keepsOrder` excludes what follows from this.  Then every view
is at the version the job has when it is published, and its number is one that
the attempt can go on from.
-/
import KDown.SupervisorViews

namespace KDown

/-- A run was once launched under the attempt. -/
def Actor.hasLaunched (s : Actor) (attempt : ℕ) : Bool :=
  s.launches.any fun launch => launch.attempt = attempt

/-- The view shows the record as it stands. -/
structure JobView.Shows {δ : Type*} (view : JobView δ) (job : ℕ) (record : JobRecord) : Prop where
  id : view.id = job
  status : view.status = record.status
  desiredState : view.desiredState = record.desiredState
  controlVersion : view.controlVersion = record.controlVersion
  attemptId : view.attemptId = record.currentAttemptId

namespace Publisher

variable {δ : Type*} (snapshot : ℕ → ℕ → δ) (key : ℕ)

/-- A milestone of the job would carry the number of its own attempt: the run it
has is under its current attempt, or that attempt has not run yet. -/
def traceable (p : Publisher δ) (job : ℕ) : Bool :=
  (p.actor.registry.jobs.get? job).all fun record =>
    match p.actor.active.get? job with
    | some attempt => record.currentAttemptId = some attempt
    | none => record.currentAttemptId.all fun attempt => !p.actor.hasLaunched attempt

/-- The given attempt is the job's current one and has not run yet, and no run
of the job is there when a failure of the launch is announced. -/
def launchable (p : Publisher δ) (job : ℕ) (prebound : Option ℕ)
    (refusal : Option LaunchRefusal) : Bool :=
  (prebound.all fun attempt => !p.actor.hasLaunched attempt &&
    (p.actor.registry.jobs.get? job).any fun record => record.currentAttemptId = some attempt) &&
  (refusal.all (·.byName) || !p.actor.active.contains job)

/-- The copy a run carries is at the durable version, and its number can
advance. -/
def upToDate (p : Publisher δ) (job : ℕ) : Bool :=
  (p.copies job).seq < maxSampleSeq &&
    (p.actor.registry.jobs.get? job).any fun record =>
      (p.copies job).job.controlVersion = record.controlVersion

/-- The next job of the queue may be announced or launched, if it is. -/
def promotes (p : Publisher δ) (job : ℕ) (refusal : Option LaunchRefusal) : Bool :=
  p.actor.full || (p.actor.registry.jobs.get? job).all fun record =>
    record.status.isTerminal ||
      match record.desiredState with
      | .paused => true
      | .cancelled => p.traceable job
      | .running => p.launchable job record.currentAttemptId refusal

/-- Each job of the queue may be announced or launched in its turn. -/
def promotesAll (refusals : ℕ → Option LaunchRefusal) : ℕ → List ℕ → Publisher δ → Bool
  | _, [], _ => true
  | n, job :: rest, p => p.promotes job (refusals n) &&
      promotesAll refusals (n + 1) rest (p.promoteOne snapshot key job (refusals n))

/-- An admission that launches the job, if it does. -/
def admits (p : Publisher δ) (job : ℕ) (prebound : Option ℕ) (refusal : Option LaunchRefusal) :
    Bool :=
  p.actor.isTerminal job || p.actor.full || p.launchable job prebound refusal

/-- Runs are sampled with up-to-date copies, milestones are traceable, launches
are under attempts that have not run, and a job that is cancelled has a run. -/
def keepsOrder (p : Publisher δ) : ViewEvent → Bool
  | .sample => p.actor.active.entries.all fun run => p.upToDate run.1
  | .enqueue job refusal => p.admits job none refusal
  | .pause job expected _ | .resume job expected _ =>
      !p.actor.takesVersion job expected || p.traceable job
  | .cancel job expected _ =>
      p.actor.isTerminal job || !p.actor.takesVersion job expected ||
        (p.actor.active.contains job && p.traceable job)
  | .retry job expected refusal =>
      !p.actor.isTerminal job || !p.actor.takesVersion job expected ||
        if p.actor.full then p.traceable job else p.launchable job none refusal
  | .completed job attempt outcome refusals =>
      p.traceable job && promotesAll snapshot key refusals 0 p.actor.queue
        (((p.takeCompletion job attempt).finish snapshot job attempt outcome).dropRun job)
  | .recoverEnqueue refusal =>
      match p.actor.recovery, p.actor.stage with
      | (job, _) :: _, .enqueue attempt => p.admits job (some attempt) refusal
      | _, _ => true
  | .quiet _ => true

/-! ### The invariant -/

/-- Views are no newer than the records, and the number of a view is one its
attempt can go on from: 0 before it runs, and at most the number of its run. -/
structure Orderly (p : Publisher δ) : Prop where
  wellFormed : p.actor.registry.WellFormed
  launched : ∀ a, p.actor.hasLaunched a = true → a < p.actor.registry.attempts.length
  running : ∀ j a, p.actor.active.get? j = some a →
    p.actor.hasLaunched a = true ∧ p.actor.registry.Owned a j
  ending : ∀ run ∈ p.actor.completions, p.actor.registry.Owned run.2 run.1
  bounded : ∀ j, (p.copies j).seq ≤ maxSampleSeq
  current : ∀ v ∈ p.published, ∃ row, p.actor.registry.jobs.get? v.id = some row ∧
    v.controlVersion ≤ row.controlVersion
  fresh : ∀ v ∈ p.published, ∀ a, v.attemptId = some a → p.actor.hasLaunched a = false →
    v.sampleSeq = 0
  live : ∀ v ∈ p.published, ∀ j a, v.attemptId = some a → p.actor.active.get? j = some a →
    v.sampleSeq ≤ (p.copies j).seq
  versions : p.published.Pairwise fun v w => v.id = w.id → v.controlVersion ≤ w.controlVersion
  samples : p.published.Pairwise fun v w => ∀ a, v.attemptId = some a → w.attemptId = some a →
    v.sampleSeq ≤ w.sampleSeq

variable {p q : Publisher δ} {job : ℕ} {r' : Registry}

/-- What the invariant does not speak of. -/
theorem Orderly.congr (h : p.Orderly) (hregistry : q.actor.registry = p.actor.registry)
    (hactive : q.actor.active = p.actor.active) (hlaunches : q.actor.launches = p.actor.launches)
    (hcompletions : ∀ run ∈ q.actor.completions, run ∈ p.actor.completions)
    (hcopies : ∀ j, (q.copies j).seq = (p.copies j).seq) (hpublished : q.published = p.published) :
    q.Orderly := by
  have hlaunched : ∀ a, q.actor.hasLaunched a = p.actor.hasLaunched a := by
    intro a
    unfold Actor.hasLaunched
    rw [hlaunches]
  refine ⟨?_, ?_, ?_, ?_, ?_, ?_, ?_, ?_, ?_, ?_⟩ <;>
    simp only [hregistry, hactive, hlaunched, hcopies, hpublished]
  · exact h.wellFormed
  · exact h.launched
  · exact h.running
  · exact fun run hrun => h.ending run (hcompletions run hrun)
  · exact h.bounded
  · exact h.current
  · exact h.fresh
  · exact h.live
  · exact h.versions
  · exact h.samples

/-- A run of one job only. -/
theorem Orderly.unique (h : p.Orderly) {j k a : ℕ} (hj : p.actor.active.get? j = some a)
    (hk : p.actor.active.get? k = some a) : j = k :=
  Option.some.inj (((h.running j a hj).2).symm.trans (h.running k a hk).2)

/-- The registry changes at one job. -/
theorem Orderly.touch (h : p.Orderly) (htouch : p.actor.registry.Touches r' job)
    (hwf : r'.WellFormed) : (p.withRegistry r').Orderly where
  wellFormed := hwf
  launched a ha := by
    obtain ⟨row, hrow, -⟩ := htouch.attempts a _ (List.getElem?_eq_getElem (h.launched a ha))
    exact (List.getElem?_eq_some_iff.mp hrow).1
  running j a ha := ⟨(h.running j a ha).1, htouch.owned (h.running j a ha).2⟩
  ending run hrun := htouch.owned (h.ending run hrun)
  bounded := h.bounded
  current v hv := by
    obtain ⟨row, hrow, hle⟩ := h.current v hv
    rcases eq_or_ne v.id job with heq | hne
    · obtain ⟨row', hrow', hle'⟩ := htouch.versions row (heq ▸ hrow)
      exact ⟨row', heq ▸ hrow', hle.trans hle'⟩
    · exact ⟨row, (htouch.others v.id hne).trans hrow, hle⟩
  fresh := h.fresh
  live := h.live
  versions := h.versions
  samples := h.samples

/-- A view at the version of the job, with a number its attempt can go on
from. -/
theorem Orderly.publish (h : p.Orderly) {view : JobView δ} {row : JobRecord}
    (hrow : p.actor.registry.jobs.get? view.id = some row)
    (hversion : view.controlVersion = row.controlVersion)
    (hfresh : ∀ a, view.attemptId = some a → p.actor.hasLaunched a = false → view.sampleSeq = 0)
    (hlive : ∀ j a, view.attemptId = some a → p.actor.active.get? j = some a →
      view.sampleSeq ≤ (p.copies j).seq)
    (hlast : ∀ v ∈ p.published, ∀ a, v.attemptId = some a → view.attemptId = some a →
      v.sampleSeq ≤ view.sampleSeq) : (p.publish view).Orderly where
  wellFormed := h.wellFormed
  launched := h.launched
  running := h.running
  ending := h.ending
  bounded := h.bounded
  current v hv := by
    rcases List.mem_append.mp hv with hv | hv
    · exact h.current v hv
    · cases List.mem_singleton.mp hv
      exact ⟨row, hrow, hversion.le⟩
  fresh v hv a ha hnot := by
    rcases List.mem_append.mp hv with hv | hv
    · exact h.fresh v hv a ha hnot
    · cases List.mem_singleton.mp hv
      exact hfresh a ha hnot
  live v hv j a ha hactive := by
    rcases List.mem_append.mp hv with hv | hv
    · exact h.live v hv j a ha hactive
    · cases List.mem_singleton.mp hv
      exact hlive j a ha hactive
  versions := by
    refine List.pairwise_append.mpr ⟨h.versions, List.pairwise_singleton .., fun v hv w hw hid => ?_⟩
    cases List.mem_singleton.mp hw
    obtain ⟨row', hrow', hle⟩ := h.current v hv
    rw [hid, hrow] at hrow'
    cases hrow'
    exact hle.trans hversion.ge
  samples := by
    refine List.pairwise_append.mpr ⟨h.samples, List.pairwise_singleton .., fun v hv w hw => ?_⟩
    cases List.mem_singleton.mp hw
    exact hlast v hv

/-- A traceable milestone. -/
theorem Orderly.broadcastRecord (h : p.Orderly) (htrace : p.traceable job = true) :
    (p.broadcastRecord snapshot job).Orderly := by
  unfold Publisher.broadcastRecord Registry.loadJob
  rcases hrow : p.actor.registry.jobs.get? job with _ | row <;> dsimp only
  · exact h
  simp only [traceable, hrow, Option.all_some] at htrace
  rcases hactive : p.actor.active.get? job with _ | attempt <;> rw [hactive] at htrace
  · -- the current attempt has not run
    have hseq : p.seqOf job = 0 := by
      unfold seqOf
      rw [hactive]
    have hnot : ∀ a, row.currentAttemptId = some a → p.actor.hasLaunched a = false := by
      intro a ha
      simpa [ha] using htrace
    rw [hseq]
    refine h.publish hrow rfl (fun _ _ _ => rfl) (fun j a ha hj => ?_) fun v hv a hv' ha => ?_
    · exact Nat.zero_le _
    · exact (h.fresh v hv a hv' (hnot a ha)).le
  · have hseq : p.seqOf job = (p.copies job).seq := by
      unfold seqOf
      rw [hactive]
    have hcurrent : row.currentAttemptId = some attempt := by simpa using htrace
    rw [hseq]
    refine h.publish hrow rfl (fun a ha hnot => ?_) (fun j a ha hj => ?_) fun v hv a hv' ha => ?_
    · cases hcurrent.symm.trans ha
      rw [(h.running job attempt hactive).1] at hnot
      cases hnot
    · cases hcurrent.symm.trans ha
      cases h.unique hj hactive
      exact le_rfl
    · cases hcurrent.symm.trans ha
      exact h.live v hv job attempt hv' hactive

theorem Orderly.refresh (h : p.Orderly) : (p.refresh job).Orderly := by
  refine h.congr ?_ ?_ ?_ (fun run hrun => ?_) (fun j => ?_) ?_
  · rw [refresh_actor]
  · rw [refresh_actor]
  · rw [refresh_actor]
  · rwa [refresh_actor] at hrun
  · unfold Publisher.refresh
    split
    · rfl
    · rcases eq_or_ne j job with rfl | hne
      · simp
      · simp [Function.update_of_ne hne]
  · unfold Publisher.refresh
    split <;> rfl

/-- The number of a run advances. -/
theorem Orderly.setSeq (h : p.Orderly) {seq : ℕ} (hle : (p.copies job).seq ≤ seq)
    (hmax : seq ≤ maxSampleSeq) : (p.setSeq job seq).Orderly := by
  have hseq : ∀ j, (p.copies j).seq ≤ ((p.setSeq job seq).copies j).seq := by
    intro j
    rcases eq_or_ne j job with rfl | hne
    · simpa [Publisher.setSeq] using hle
    · simp [Publisher.setSeq, Function.update_of_ne hne]
  refine ⟨h.wellFormed, h.launched, h.running, h.ending, fun j => ?_, h.current, h.fresh,
    fun v hv j a ha hj => (h.live v hv j a ha hj).trans (hseq j), h.versions, h.samples⟩
  rcases eq_or_ne j job with rfl | hne
  · simpa [Publisher.setSeq] using hmax
  · simpa [Publisher.setSeq, Function.update_of_ne hne] using h.bounded j

theorem Orderly.dropRun (h : p.Orderly) : (p.dropRun job).Orderly := by
  have hsub : ∀ {j a}, (p.dropRun job).actor.active.get? j = some a →
      p.actor.active.get? j = some a := by
    intro j a ha
    simp only [Publisher.dropRun, SortedMap.get?_erase] at ha
    split_ifs at ha
    exact ha
  exact ⟨h.wellFormed, h.launched, fun j a ha => h.running j a (hsub ha), h.ending, h.bounded,
    h.current, h.fresh, fun v hv j a ha hj => h.live v hv j a ha (hsub hj), h.versions, h.samples⟩

/-! ### Launching -/

theorem hasLaunched_register (s : Actor) (attempt a : ℕ) :
    (s.register job attempt).hasLaunched a = (s.hasLaunched a || decide (attempt = a)) := by
  simp [Actor.hasLaunched, Actor.register, List.any_append]

/-- A run starts under an attempt that has not run. -/
theorem Orderly.register (h : p.Orderly) {attempt : ℕ} (howned : p.actor.registry.Owned attempt job)
    (hnot : p.actor.hasLaunched attempt = false) :
    ({ p with actor := p.actor.register job attempt }.setSeq job 0).Orderly where
  wellFormed := h.wellFormed
  launched a ha := by
    rw [setSeq_actor, hasLaunched_register, Bool.or_eq_true, decide_eq_true_eq] at ha
    rcases ha with ha | rfl
    · exact h.launched a ha
    · obtain ⟨record, hat, -⟩ := howned.exists
      exact (List.getElem?_eq_some_iff.mp hat).1
  running j a ha := by
    simp only [setSeq_actor, hasLaunched_register, Bool.or_eq_true, decide_eq_true_eq]
    rcases eq_or_ne j job with rfl | hne
    · have hsame : (p.actor.active.insert j attempt).get? j = some a := ha
      rw [SortedMap.get?_insert_self] at hsame
      cases hsame
      exact ⟨.inr rfl, howned⟩
    · have hother : (p.actor.active.insert job attempt).get? j = some a := ha
      rw [SortedMap.get?_insert_of_ne _ _ hne] at hother
      exact ⟨.inl (h.running j a hother).1, (h.running j a hother).2⟩
  ending run hrun := by
    rcases List.mem_append.mp hrun with hrun | hrun
    · exact h.ending run hrun
    · cases List.mem_singleton.mp hrun
      exact howned
  bounded j := by
    rcases eq_or_ne j job with rfl | hne
    · simp [Publisher.setSeq]
    · simpa [Publisher.setSeq, Function.update_of_ne hne] using h.bounded j
  current := h.current
  fresh v hv a ha hnone := by
    rw [setSeq_actor, hasLaunched_register, Bool.or_eq_false_iff] at hnone
    exact h.fresh v hv a ha hnone.1
  live v hv j a ha hj := by
    rcases eq_or_ne j job with rfl | hne
    · have hsame : (p.actor.active.insert j attempt).get? j = some a := hj
      rw [SortedMap.get?_insert_self] at hsame
      cases hsame
      -- every view of the attempt was published before it ran
      exact (h.fresh v hv attempt ha hnot).le.trans (Nat.zero_le _)
    · have hother : (p.actor.active.insert job attempt).get? j = some a := hj
      rw [SortedMap.get?_insert_of_ne _ _ hne] at hother
      simpa [Publisher.setSeq, Function.update_of_ne hne] using h.live v hv j a ha hother
  versions := h.versions
  samples := h.samples

end Publisher

/-- A launch is under the attempt that is current then. -/
theorem Actor.attemptFor_current {key : ℕ} {s : Actor} {job attempt : ℕ} {record : JobRecord}
    {reason : AttemptReason} {prebound : Option ℕ} {r' : Registry}
    (hjob : s.registry.jobs.get? job = some record)
    (hpre : ∀ a, prebound = some a → record.currentAttemptId = some a)
    (hfor : s.attemptFor key job reason prebound = .ok (attempt, r')) :
    ∃ row, r'.jobs.get? job = some row ∧ row.currentAttemptId = some attempt := by
  rcases prebound with _ | a
  · have hfresh := hfor.symm.trans (Registry.beginAttemptOnce_fresh hjob reason key)
    cases hfresh
    exact ⟨_, SortedMap.get?_insert_self .., rfl⟩
  · rcases hat : s.registry.attempts[a]? with _ | old <;>
      simp only [Actor.attemptFor, Registry.loadAttempt, hat] at hfor <;> cases hfor
    exact ⟨record, hjob, hpre attempt rfl⟩

namespace Publisher

variable {δ : Type*} (snapshot : ℕ → ℕ → δ) (key : ℕ) {p q : Publisher δ} {job : ℕ} {r' : Registry}

/-- The run of a job is under its current attempt. -/
theorem traceable_of_active {attempt : ℕ} {row : JobRecord}
    (hactive : p.actor.active.get? job = some attempt)
    (hrow : p.actor.registry.jobs.get? job = some row)
    (hcurrent : row.currentAttemptId = some attempt) : p.traceable job = true := by
  simp [traceable, hrow, hactive, hcurrent]

/-- There is no run, and the current attempt has not run. -/
theorem traceable_of_inactive {attempt : ℕ} {row : JobRecord}
    (hactive : p.actor.active.get? job = none)
    (hrow : p.actor.registry.jobs.get? job = some row)
    (hcurrent : row.currentAttemptId = some attempt)
    (hnot : p.actor.hasLaunched attempt = false) : p.traceable job = true := by
  simp [traceable, hrow, hactive, hcurrent, hnot]

/-- A change of the record that keeps the current attempt. -/
theorem traceable_withRegistry (h : p.traceable job = true)
    (hkeep : ∀ row', r'.jobs.get? job = some row' → ∃ row,
      p.actor.registry.jobs.get? job = some row ∧ row'.currentAttemptId = row.currentAttemptId) :
    (p.withRegistry r').traceable job = true := by
  unfold traceable at h ⊢
  rw [withRegistry_actor]
  rcases hrow' : r'.jobs.get? job with _ | row'
  · rfl
  obtain ⟨row, hrow, hcurrent⟩ := hkeep row' hrow'
  rw [hrow] at h
  rw [Option.all_some, hcurrent]
  exact h

theorem traceable_congr (hactor : q.actor = p.actor) : q.traceable job = p.traceable job := by
  unfold traceable
  rw [hactor]

/-- A launch publishes under an attempt that has not run, and then the job has a
run under it. -/
theorem Orderly.launchJob (h : p.Orderly) {record : JobRecord}
    (hjob : p.actor.registry.jobs.get? job = some record) (reason : AttemptReason)
    {prebound : Option ℕ} {refusal : Option LaunchRefusal}
    (hok : p.launchable job prebound refusal = true) :
    (p.launchJob snapshot key job reason prebound refusal).2.Orderly ∧
      ((p.launchJob snapshot key job reason prebound refusal).1 = none →
        (p.launchJob snapshot key job reason prebound refusal).2.traceable job = true) := by
  obtain ⟨hbound, hrefused⟩ := Bool.and_eq_true_iff.mp hok
  have hcurrent : ∀ a, prebound = some a →
      p.actor.hasLaunched a = false ∧ record.currentAttemptId = some a := by
    rintro a rfl
    simpa [hjob] using hbound
  have hpre : ∀ a, prebound = some a → p.actor.registry.Owned a job := fun a ha =>
    h.wellFormed job record a hjob (hcurrent a ha).2
  obtain ⟨attempt, r₁, hfor, heffect, howned, hkind⟩ :=
    Actor.attemptFor_spec key hjob hpre reason
  obtain ⟨row₁, hrow₁, hcur₁⟩ :=
    Actor.attemptFor_current hjob (fun a ha => (hcurrent a ha).2) hfor
  have hnot : p.actor.hasLaunched attempt = false := by
    rcases hkind with ⟨hsame, -⟩ | ⟨-, rfl, -⟩
    · exact (hcurrent attempt hsame).1
    · by_contra hlaunched
      exact absurd (h.launched _ (Bool.not_eq_false _ ▸ hlaunched)) (lt_irrefl _)
  rcases hmark : r₁.markStatus job .active with e | r₂
  · simp only [Publisher.launchJob, Actor.launchJob, prepares, hfor, hmark]
    exact ⟨h.touch heffect.touches (heffect.wellFormed h.wellFormed), fun hno => (by cases hno)⟩
  have heffect₂ := heffect.markStatus hmark
  have h₂ := h.touch heffect₂.touches (heffect₂.wellFormed h.wellFormed)
  have howned₂ : r₂.Owned attempt job := (Registry.touches_markStatus hmark).owned howned
  obtain ⟨row₂, hrow₂, hcur₂⟩ : ∃ row, r₂.jobs.get? job = some row ∧
      row.currentAttemptId = some attempt := by
    obtain ⟨old, hold, hrow⟩ := Registry.markStatus_row hmark
    rw [hrow₁] at hold
    cases hold
    exact ⟨_, hrow, hcur₁⟩
  rcases refusal with _ | refusal
  · simp only [Publisher.launchJob, Actor.launchJob, hfor, hmark, Option.map_none]
    have hrun : Publisher.traceable
        { p with actor := { p.actor with registry := r₂ }.register job attempt } job = true :=
      traceable_of_active (SortedMap.get?_insert_self ..) hrow₂ hcur₂
    refine ⟨(h₂.register howned₂ hnot).refresh.broadcastRecord snapshot ?_, fun _ => ?_⟩
    · exact (traceable_congr (refresh_actor ..)).trans hrun
    · exact (traceable_congr ((broadcastRecord_actor ..).trans (refresh_actor ..))).trans hrun
  · simp only [Publisher.launchJob, Actor.launchJob, prepares, hfor, hmark, Option.map_some,
      Option.any_some]
    obtain ⟨old, hat, hold⟩ := howned₂.exists
    have heffect₃ := heffect₂.recordOutcome howned₂ (hkind.imp And.left fun h => h.2.1.ge)
      (.failed refusal.error.code none)
    have h₃ := h.touch heffect₃.touches (heffect₃.wellFormed h.wellFormed)
    split_ifs with hannounced
    · -- the failure is announced, so the job has no run
      refine ⟨h₃.broadcastRecord snapshot ?_, fun hno => (by cases hno)⟩
      have hbyName : refusal.byName = false := by simpa using (Bool.and_eq_true_iff.mp hannounced).2
      have hinactive : p.actor.active.get? job = none := by
        simpa [SortedMap.contains, hbyName] using hrefused
      have htrace : (p.withRegistry r₂).traceable job = true :=
        traceable_of_inactive hinactive hrow₂ hcur₂ hnot
      refine traceable_withRegistry (p := p.withRegistry r₂) htrace fun row' hrow' => ?_
      obtain ⟨row, hrow, -, hcur⟩ := Registry.recordOutcome_row hrow'
      exact ⟨row, hrow, hcur⟩
    · exact ⟨h₃, fun hno => (by cases hno)⟩

/-! ### Commands -/

/-- The state after a command is orderly, and a view it was answered with shows
the record as it stands then. -/
structure Sound (answer : Except AppError (JobView δ) × Publisher δ) (job : ℕ) : Prop where
  orderly : answer.2.Orderly
  shows : ∀ view, answer.1 = .ok view → ∃ row,
    answer.2.actor.registry.jobs.get? job = some row ∧ view.Shows job row

theorem Orderly.sound_error (h : p.Orderly) (e : AppError) : Sound (.error e, p) job :=
  ⟨h, fun _ hview => by cases hview⟩

theorem Orderly.sound_viewOf (h : p.Orderly) (seq : ℕ) : Sound (p.viewOf job seq, p) job := by
  refine ⟨h, fun view hview => ?_⟩
  rcases hrow : p.actor.registry.jobs.get? job with _ | row
  · simp only [viewOf, Registry.loadJob, hrow] at hview
    cases hview
  · cases (viewOf_eq p job hrow seq).symm.trans hview
    exact ⟨row, rfl, rfl, rfl, rfl, rfl, rfl⟩

theorem Orderly.withQueue (h : p.Orderly) (queue : List ℕ) : (p.withQueue queue).Orderly :=
  h.congr rfl rfl rfl (fun _ hrun => hrun) (fun _ => rfl) rfl

theorem Orderly.enqueue (h : p.Orderly) {prebound : Option ℕ} {refusal : Option LaunchRefusal}
    (hok : p.admits job prebound refusal = true) :
    Sound (p.enqueue snapshot key job prebound refusal) job := by
  unfold Publisher.enqueue Registry.loadJob
  rcases hrow : p.actor.registry.jobs.get? job with _ | row <;> dsimp only
  · exact h.sound_error _
  split_ifs with hterm hfull
  · exact h.sound_error _
  · exact (h.withQueue (p.actor.queue ++ [job])).sound_viewOf 0
  have hlaunchable : p.launchable job prebound refusal = true := by
    simpa [admits, Actor.isTerminal_eq hrow, hterm, hfull] using hok
  have hlaunch := (h.launchJob snapshot key hrow .initial hlaunchable).1
  rcases (p.launchJob snapshot key job .initial prebound refusal).1 with _ | e
  · exact hlaunch.sound_viewOf 0
  · exact hlaunch.sound_error e

/-- The desired state moves; the current attempt stays. -/
theorem Orderly.setDesired (h : p.Orderly) {expected : ℕ} {desired : DesiredState}
    (hset : p.actor.registry.compareAndSetDesired job expected desired = .ok r')
    (htrace : p.traceable job = true) :
    (p.withRegistry r').Orderly ∧ (p.withRegistry r').traceable job = true := by
  refine ⟨h.touch (Registry.touches_compareAndSetDesired hset)
    (h.wellFormed.compareAndSetDesired hset), traceable_withRegistry htrace fun row' hrow' => ?_⟩
  obtain ⟨old, hold, hrow⟩ := Registry.compareAndSetDesired_row hset
  rw [hrow] at hrow'
  cases hrow'
  exact ⟨old, hold, rfl⟩

theorem Orderly.markStatus (h : p.Orderly) {status : DurableJobStatus}
    (hmark : p.actor.registry.markStatus job status = .ok r') (htrace : p.traceable job = true) :
    (p.withRegistry r').Orderly ∧ (p.withRegistry r').traceable job = true := by
  refine ⟨h.touch (Registry.touches_markStatus hmark) (h.wellFormed.markStatus hmark),
    traceable_withRegistry htrace fun row' hrow' => ?_⟩
  obtain ⟨old, hold, hrow⟩ := Registry.markStatus_row hmark
  rw [hrow] at hrow'
  cases hrow'
  exact ⟨old, hold, rfl⟩

/-- A control of a job whose views can be traced to its records. -/
theorem Orderly.control (h : p.Orderly) {expected : ℕ} (desired : DesiredState)
    (status : DurableJobStatus) (refusal : Option AppError)
    (hok : (!p.actor.takesVersion job expected || p.traceable job) = true) :
    Sound (p.control snapshot job expected desired status refusal) job := by
  rcases Actor.control_cases p.actor job expected desired status refusal with
    ⟨e, heq⟩ | ⟨r₁, hset, hcases⟩
  · simp only [Publisher.control, heq]
    exact h.sound_error e
  have htrace : p.traceable job = true := by
    rw [Actor.takesVersion_of_ok hset] at hok
    simpa using hok
  obtain ⟨h₁, htrace₁⟩ := h.setDesired hset htrace
  rcases hcases with ⟨e, heq⟩ | ⟨hactive, heq⟩ | ⟨hactive, r₂, hmark, heq⟩ <;>
    simp only [Publisher.control, heq]
  · exact h₁.sound_error e
  · rw [if_neg (by simp [hactive])]
    exact (h₁.broadcastRecord snapshot htrace₁).sound_viewOf _
  · rw [if_pos hactive]
    obtain ⟨h₂, htrace₂⟩ := h₁.markStatus hmark htrace₁
    refine (h₂.refresh.broadcastRecord snapshot ?_).sound_viewOf _
    exact (traceable_congr (refresh_actor ..)).trans htrace₂

/-- Cancel of a job that has a run changes the desired state only. -/
theorem Orderly.cancel (h : p.Orderly) {expected : ℕ} (refusal : Option AppError)
    (hok : (p.actor.isTerminal job || !p.actor.takesVersion job expected ||
      (p.actor.active.contains job && p.traceable job)) = true) :
    Sound (p.cancel snapshot job expected refusal) job := by
  by_cases hterm : p.actor.isTerminal job = true
  · simp only [Publisher.cancel, Actor.cancel_terminal expected refusal hterm]
    exact h.sound_error _
  rcases Actor.cancel_cases p.actor job expected refusal with ⟨e, heq⟩ | ⟨r₁, hset, hcases⟩
  · simp only [Publisher.cancel, heq]
    exact h.sound_error e
  obtain ⟨hactive, htrace⟩ : p.actor.active.contains job = true ∧ p.traceable job = true := by
    rw [Actor.takesVersion_of_ok hset] at hok
    simpa [hterm] using hok
  have hactor : (p.actor.cancel job expected refusal).2 = { p.actor with registry := r₁ } := by
    rcases hcases with heq | ⟨hinactive, -⟩
    · exact heq
    · rw [hactive] at hinactive
      cases hinactive
  obtain ⟨h₁, htrace₁⟩ := h.setDesired hset htrace
  rcases hanswer : (p.actor.cancel job expected refusal).1 with _ | e <;>
    simp only [Publisher.cancel, hanswer, hactor]
  · refine ⟨h₁.broadcastRecord snapshot htrace₁, fun view hview => ?_⟩
    obtain ⟨old, -, hrow⟩ := Registry.compareAndSetDesired_row hset
    simp only [swappedRecord, hset, Except.bind, Registry.loadJob, hrow, broadcastRecord_actor]
      at hview
    cases hview
    refine ⟨{ old with desiredState := .cancelled, controlVersion := expected + 1 }, ?_, rfl, rfl,
      rfl, rfl, rfl⟩
    simpa using hrow
  · exact h₁.sound_error e

/-- A retry, which may begin an attempt of its own. -/
theorem Orderly.retry (h : p.Orderly) {expected : ℕ} {refusal : Option LaunchRefusal}
    (hok : p.keepsOrder snapshot key (.retry job expected refusal) = true) :
    Sound (p.retry snapshot key job expected refusal) job := by
  unfold Publisher.retry Registry.loadJob
  rcases hrow : p.actor.registry.jobs.get? job with _ | row <;> dsimp only
  · exact h.sound_error _
  split_ifs with hopen
  · exact h.sound_error _
  rcases hset : p.actor.registry.compareAndSetDesired job expected .running with e | r₁ <;>
    dsimp only
  · exact h.sound_error e
  have hterm : p.actor.isTerminal job = true := by
    rw [Actor.isTerminal_eq hrow]
    simpa using hopen
  simp only [keepsOrder, hterm, Actor.takesVersion_of_ok hset, Bool.not_true, Bool.false_or] at hok
  rw [withRegistry_actor]
  split_ifs with hfull
  · have hfull' : p.actor.full = true := hfull
    rw [if_pos hfull'] at hok
    obtain ⟨h₁, htrace₁⟩ := h.setDesired hset hok
    rcases hmark : r₁.markStatus job .queued with e | r₂ <;> dsimp only
    · exact h₁.sound_error e
    · obtain ⟨h₂, htrace₂⟩ := h₁.markStatus hmark htrace₁
      have h₃ := h₂.withQueue (p.actor.queue ++ [job])
      exact (h₃.broadcastRecord snapshot htrace₂).sound_viewOf 0
  · have hfull' : ¬ p.actor.full = true := hfull
    rw [if_neg hfull'] at hok
    obtain ⟨old, hold, hrow₁⟩ := Registry.compareAndSetDesired_row hset
    have h₁ : (p.withRegistry r₁).Orderly :=
      h.touch (Registry.touches_compareAndSetDesired hset) (h.wellFormed.compareAndSetDesired hset)
    have hok₁ : (p.withRegistry r₁).launchable job none refusal = true := hok
    obtain ⟨hlaunch, htrace⟩ := h₁.launchJob snapshot key hrow₁ .retry hok₁
    rcases hanswer : ((p.withRegistry r₁).launchJob snapshot key job .retry none refusal).1 with _ | e
    · exact (hlaunch.broadcastRecord snapshot (htrace hanswer)).sound_viewOf 0
    · exact hlaunch.sound_error e

/-! ### Completions and samples -/

/-- The first job of the queue is launched, if it may run. -/
theorem Orderly.promoteOne (h : p.Orderly) {refusal : Option LaunchRefusal}
    (hok : p.promotes job refusal = true) : (p.promoteOne snapshot key job refusal).Orderly := by
  unfold Publisher.promoteOne Registry.loadJob
  by_cases hfull : p.actor.full = true
  · rw [if_pos hfull]
    exact h.withQueue _
  rw [if_neg hfull]
  rcases hrow : p.actor.registry.jobs.get? job with _ | row <;> dsimp only
  · exact h
  by_cases hterm : row.status.isTerminal = true
  · rw [if_pos hterm]
    exact h
  rw [if_neg hterm]
  simp only [promotes, hfull, hrow, hterm, Option.all_some, Bool.false_or] at hok
  rcases hdesired : row.desiredState with _ | _ | _ <;> simp only [hdesired] at hok ⊢
  · exact (h.launchJob snapshot key hrow .initial hok).1
  · exact h.withQueue _
  · rcases hmark : p.actor.registry.markStatus job .cancelled with e | r₁ <;> dsimp only
    · exact h.broadcastRecord snapshot hok
    · obtain ⟨h₁, htrace₁⟩ := h.markStatus hmark hok
      exact h₁.broadcastRecord snapshot htrace₁

theorem Orderly.promoteLoop (h : p.Orderly) {refusals : ℕ → Option LaunchRefusal} {n : ℕ}
    {queue : List ℕ} (hok : promotesAll snapshot key refusals n queue p = true) :
    (promoteLoop snapshot key refusals n queue p).Orderly := by
  induction queue generalizing n p with
  | nil => exact h
  | cons job rest ih =>
    obtain ⟨hone, hrest⟩ := Bool.and_eq_true_iff.mp hok
    exact ih (h.promoteOne snapshot key hone) hrest

/-- The last view of a run. -/
theorem Orderly.finish (h : p.Orderly) {attempt : ℕ} (outcome : EngineOutcome)
    (howned : p.actor.registry.Owned attempt job) (htrace : p.traceable job = true) :
    (p.finish snapshot job attempt outcome).Orderly := by
  obtain ⟨record, hat, hjob⟩ := howned.exists
  have h₁ := h.touch (Registry.touches_recordOutcome (p.actor.attemptOutcome outcome) hat hjob)
    (h.wellFormed.recordOutcome hat _)
  have htrace₁ : (p.withRegistry (p.actor.registry.recordOutcome attempt
      (p.actor.attemptOutcome outcome))).traceable job = true := by
    refine traceable_withRegistry htrace fun row' hrow' => ?_
    obtain ⟨row, hrow, -, hcur⟩ := Registry.recordOutcome_row hrow'
    exact ⟨row, hrow, hcur⟩
  unfold Publisher.finish
  dsimp only
  split_ifs with hactive
  · have hle : (p.copies job).seq ≤ min ((p.copies job).seq + 1) maxSampleSeq :=
      le_min (Nat.le_succ _) (h.bounded job)
    exact (h₁.setSeq hle (min_le_right ..)).broadcastRecord snapshot htrace₁
  · exact h₁.broadcastRecord snapshot htrace₁

/-- A sample of an up-to-date copy. -/
theorem Orderly.sampleRun (h : p.Orderly) {attempt : ℕ}
    (hactive : p.actor.active.get? job = some attempt) (hok : p.upToDate job = true) :
    (p.sampleRun snapshot job attempt).Orderly := by
  rcases hrow : p.actor.registry.jobs.get? job with _ | row
  · simp [upToDate, hrow] at hok
  obtain ⟨hseq, hversion⟩ : (p.copies job).seq < maxSampleSeq ∧
      (p.copies job).job.controlVersion = row.controlVersion := by
    simpa [upToDate, hrow] using hok
  have hmod : ((p.copies job).seq + 1) % (maxSampleSeq + 1) = (p.copies job).seq + 1 :=
    Nat.mod_eq_of_lt (by omega)
  have h₁ : (p.setSeq job ((p.copies job).seq + 1)).Orderly :=
    h.setSeq (Nat.le_succ _) (by omega)
  unfold Publisher.sampleRun
  dsimp only
  rw [hmod]
  refine h₁.publish hrow ?_ (fun a ha hnot => ?_) (fun j a ha hj => ?_)
    fun v hv a hva ha => ?_
  · simpa [Publisher.setSeq, jobView] using hversion
  · cases ha
    have hlaunched := (h.running job attempt hactive).1
    rw [setSeq_actor, hlaunched] at hnot
    cases hnot
  · cases ha
    cases h.unique hj hactive
    exact le_rfl
  · cases ha
    exact h₁.live v hv job attempt hva hactive

theorem Orderly.sampleRuns (h : p.Orderly) {runs : List (ℕ × ℕ)} (hnodup : (runs.map Prod.fst).Nodup)
    (hruns : ∀ run ∈ runs, p.actor.active.get? run.1 = some run.2 ∧ p.upToDate run.1 = true) :
    (runs.foldl (fun p run => p.sampleRun snapshot run.1 run.2) p).Orderly := by
  induction runs generalizing p with
  | nil => exact h
  | cons run runs ih =>
    obtain ⟨hactive, hok⟩ := hruns run List.mem_cons_self
    obtain ⟨hnot, hnodup⟩ := List.nodup_cons.mp hnodup
    refine ih (h.sampleRun snapshot hactive hok) hnodup fun run' hrun' => ?_
    -- the copies of the other jobs are untouched
    have hne : run'.1 ≠ run.1 := fun heq => hnot (heq ▸ List.mem_map_of_mem hrun')
    obtain ⟨hactive', hok'⟩ := hruns run' (List.mem_cons_of_mem _ hrun')
    refine ⟨hactive', ?_⟩
    simpa [upToDate, Publisher.sampleRun, Publisher.setSeq, Publisher.publish,
      Function.update_of_ne hne] using hok'

theorem Orderly.sample (h : p.Orderly) (hok : p.keepsOrder snapshot key .sample = true) :
    (p.sample snapshot).Orderly := by
  refine h.sampleRuns snapshot p.actor.active.nodup_keys fun run hrun => ?_
  exact ⟨SortedMap.mem_entries.mp hrun, List.all_eq_true.mp hok run hrun⟩

/-! ### Runs -/

/-- The actor moves without a launch or a completion; its registry changes at
one job. -/
theorem Orderly.move (h : p.Orderly) {actor : Actor} {k : ℕ}
    (htouch : p.actor.registry.Touches actor.registry k) (hwf : actor.registry.WellFormed)
    (hactive : actor.active = p.actor.active) (hlaunches : actor.launches = p.actor.launches)
    (hcompletions : actor.completions = p.actor.completions) :
    Orderly { p with actor := actor, reply := none } :=
  (h.touch htouch hwf).congr rfl hactive hlaunches (fun _ hrun => hcompletions ▸ hrun)
    (fun _ => rfl) rfl

theorem Orderly.recoverMark (h : p.Orderly) (listed : JobRecord) (status : DurableJobStatus)
    {onward : Actor → Actor} (hregistry : ∀ s, (onward s).registry = s.registry)
    (hactive : ∀ s, (onward s).active = s.active) (hlaunches : ∀ s, (onward s).launches = s.launches)
    (hcompletions : ∀ s, (onward s).completions = s.completions) :
    Orderly { p with actor := p.actor.recoverMark job listed status onward, reply := none } := by
  unfold Actor.recoverMark
  split_ifs with hlisted
  · exact h.move (k := job) (by rw [hregistry]; exact .refl ..)
      (by rw [hregistry]; exact h.wellFormed) (hactive _) (hlaunches _) (hcompletions _)
  · rcases hmark : p.actor.registry.markStatus job status with e | r₁ <;> dsimp only
    · exact h.move (.refl _ job) h.wellFormed rfl rfl rfl
    · refine h.move (k := job) ?_ ?_ (hactive _) (hlaunches _) (hcompletions _)
      · rw [hregistry]
        exact Registry.touches_markStatus hmark
      · rw [hregistry]
        exact h.wellFormed.markStatus hmark

/-- A new job, a change of the limits, a shutdown, or the planner up to the
enqueue. -/
theorem Orderly.quiet (h : p.Orderly) {e : SupervisorEvent} {actor : Actor}
    (hquiet : e.isQuiet = true) (hs : supervisorStep key p.actor e = some actor) :
    Orderly { p with actor := actor, reply := none } := by
  have hsame := Registry.Touches.refl p.actor.registry 0
  cases e with
  | enqueue | pause | resume | cancel | retry | completed | recoverEnqueue => cases hquiet
  | insertJob job =>
    simp only [supervisorStep] at hs
    split_ifs at hs with hin
    cases hs
    refine h.move (k := job) (Registry.touches_putJob fun old hold => ?_)
      (h.wellFormed.insertJob job) rfl rfl rfl
    rw [(Actor.get?_of_not_knows hin).1] at hold
    cases hold
  | updateLimits | shutdown =>
    cases hs
    exact h.move hsame h.wellFormed rfl rfl rfl
  | recoverList =>
    simp only [supervisorStep] at hs
    split_ifs at hs
    cases hs
    exact h.move hsame h.wellFormed rfl rfl rfl
  | recoverClassify =>
    simp only [supervisorStep] at hs
    split at hs <;> cases hs
    unfold Actor.recoverClassify
    split
    · exact h.recoverMark _ _ (fun _ => rfl) (fun _ => rfl) (fun _ => rfl) fun _ => rfl
    · exact h.recoverMark _ _ (fun _ => rfl) (fun _ => rfl) (fun _ => rfl) fun _ => rfl
    · exact h.move hsame h.wellFormed rfl rfl rfl
  | recoverBegin =>
    simp only [supervisorStep] at hs
    split at hs <;> cases hs
    next job _ _ _ _ =>
    rcases Actor.recoverBegin_cases key p.actor job with
      heq | heq | ⟨-, row, attempt, r₁, -, -, htouch, hwf, -, heq⟩ <;> rw [heq]
    · exact h.move hsame h.wellFormed rfl rfl rfl
    · exact h.move hsame h.wellFormed rfl rfl rfl
    · exact h.move htouch (hwf h.wellFormed) rfl rfl rfl

/-- The reply to the last command shows the record as it stands. -/
def Answered (p : Publisher δ) : Prop :=
  ∀ job view, p.reply = some (job, .ok view) → ∃ row,
    p.actor.registry.jobs.get? job = some row ∧ view.Shows job row

theorem Sound.replied {answer : Except AppError (JobView δ) × Publisher δ} (h : Sound answer job) :
    (Publisher.replied job answer).Orderly ∧ (Publisher.replied job answer).Answered := by
  refine ⟨h.orderly.congr rfl rfl rfl (fun _ hrun => hrun) (fun _ => rfl) rfl, fun k view hview => ?_⟩
  obtain ⟨rfl, hanswer⟩ := Prod.mk.inj (Option.some.inj hview)
  exact h.shows view hanswer

theorem Sound.accept {answer : Except AppError (JobView δ) × Publisher δ} (h : Sound answer job) :
    (Publisher.accept job answer).Orderly ∧ (Publisher.accept job answer).Answered := by
  unfold Publisher.accept
  split
  · exact Sound.replied
      ⟨h.orderly.congr rfl rfl rfl (fun _ hrun => hrun) (fun _ => rfl) rfl, h.shows⟩
  · exact h.replied

/-- **The views stay no newer than the records**, and each answer is in its
place. -/
theorem Orderly.step {p' : Publisher δ} (h : p.Orderly) {e : ViewEvent}
    (hok : p.keepsOrder snapshot key e = true) (hs : p.step snapshot key e = some p') :
    p'.Orderly ∧ p'.Answered := by
  have hnone : ∀ {q : Publisher δ}, q.Orderly →
      Orderly { q with reply := none } ∧ Answered { q with reply := none } := fun hq =>
    ⟨hq.congr rfl rfl rfl (fun _ hrun => hrun) (fun _ => rfl) rfl, fun _ _ hview => by cases hview⟩
  cases e with
  | sample =>
    cases hs
    exact hnone (h.sample snapshot key hok)
  | enqueue job refusal =>
    cases hs
    exact (h.enqueue snapshot key hok).accept
  | pause job expected refusal =>
    cases hs
    exact (h.control snapshot .paused .paused refusal hok).replied
  | resume job expected refusal =>
    cases hs
    exact (h.control snapshot .running .active refusal hok).accept
  | cancel job expected refusal =>
    cases hs
    exact (h.cancel snapshot refusal hok).replied
  | retry job expected refusal =>
    cases hs
    exact (h.retry snapshot key hok).accept
  | completed job attempt outcome refusals =>
    simp only [Publisher.step] at hs
    split_ifs at hs with hmem
    cases hs
    obtain ⟨htrace, hpromotes⟩ := Bool.and_eq_true_iff.mp hok
    have htaken : (p.takeCompletion job attempt).Orderly :=
      h.congr rfl rfl rfl (fun _ hrun => List.mem_of_mem_erase hrun) (fun _ => rfl) rfl
    have hfinish := htaken.finish snapshot outcome (h.ending _ (List.contains_iff_mem.mp hmem)) htrace
    exact hnone (hfinish.dropRun.promoteLoop snapshot key hpromotes)
  | recoverEnqueue refusal =>
    simp only [Publisher.step] at hs
    split at hs <;> cases hs
    next job listed rest attempt hhead hstage =>
    simp only [keepsOrder, hhead, hstage] at hok
    obtain ⟨hq, hanswered⟩ := (h.enqueue snapshot key hok).accept
    exact ⟨hq.congr rfl rfl rfl (fun _ hrun => hrun) (fun _ => rfl) rfl, hanswered⟩
  | quiet e =>
    simp only [Publisher.step] at hs
    split_ifs at hs with hquiet
    obtain ⟨actor, hactor, rfl⟩ := Option.map_eq_some_iff.mp hs
    exact ⟨h.quiet key hquiet hactor, fun _ _ hview => by cases hview⟩

/-- A process starts with nothing running and nothing published. -/
structure Starts (p : Publisher δ) : Prop where
  actor : p.actor.Starts
  copies : ∀ j, (p.copies j).seq = 0
  published : p.published = []
  reply : p.reply = none

theorem Orderly.start (h : p.Starts) : p.Orderly := by
  have hpublished := h.published
  have hcopies := h.copies
  obtain ⟨hwf, hactive, -, -, hcompletions, -, -, hlaunches, -⟩ := h.actor
  refine ⟨hwf, ?_, ?_, ?_, ?_, ?_, ?_, ?_, ?_, ?_⟩ <;>
    simp [Actor.hasLaunched, hactive, hcompletions, hlaunches, hpublished, hcopies]

end Publisher

/-- **Published views are monotone.**  In every run whose steps all meet
`keepsOrder`, the views of one job are published with versions that do not go
back, those of one attempt with sequence numbers that do not go back, and a
command is answered with the record as it stands after the command. -/
theorem published_views_monotone {δ : Type*} (snapshot : ℕ → ℕ → δ) (key : ℕ) {p : Publisher δ}
    (h : Reach (Publisher.step snapshot key) (fun p e => p.keepsOrder snapshot key e = true)
      Publisher.Starts p) :
    (p.published.Pairwise fun v w => v.id = w.id → v.controlVersion ≤ w.controlVersion) ∧
    (p.published.Pairwise fun v w => ∀ a, v.attemptId = some a → w.attemptId = some a →
      v.sampleSeq ≤ w.sampleSeq) ∧
    ∀ job view, p.reply = some (job, .ok view) → ∃ row,
      p.actor.registry.jobs.get? job = some row ∧ view.Shows job row := by
  have hinv : p.Orderly ∧ p.Answered := by
    refine Reach.invariant (I := fun q => q.Orderly ∧ q.Answered)
      (fun q hq => ⟨.start hq, fun job view hview => ?_⟩)
      (fun q e q' hq hok hs => hq.1.step snapshot key hok hs) h
    rw [hq.reply] at hview
    cases hview
  exact ⟨hinv.1.versions, hinv.1.samples, hinv.2⟩

/-- A process with room for one run and no jobs. -/
def Publisher.fresh : Publisher Unit :=
  ⟨.fresh 1, fun _ => ⟨0, ⟨.running, .queued, 1, none⟩⟩, [], none⟩

theorem Publisher.starts_fresh : Publisher.fresh.Starts :=
  ⟨Actor.starts_fresh 1, fun _ => rfl, rfl, rfl⟩

/-- A job is launched, sampled, paused, resumed and completes. -/
def sampledJob : List ViewEvent :=
  [.quiet (.insertJob 0), .enqueue 0 none, .sample, .pause 0 2 none, .sample, .resume 0 4 none,
    .sample, .completed 0 0 .completed fun _ => none]

/-- The views that were published carry versions that do not go down. -/
theorem published_views_monotone_sampled :
    ∃ p, runEvents (Publisher.step (fun _ _ => ()) 0) .fresh sampledJob = some p ∧
      (p.published.map fun v => (v.controlVersion, v.sampleSeq)) =
        [(2, 0), (2, 1), (4, 1), (4, 2), (6, 2), (6, 3), (7, 4)] ∧
      p.published.Pairwise fun v w => v.id = w.id → v.controlVersion ≤ w.controlVersion := by
  have hend : ((runEvents (Publisher.step (fun _ _ => ()) 0) .fresh sampledJob).map fun p =>
      p.published.map fun v => (v.controlVersion, v.sampleSeq)) =
      some [(2, 0), (2, 1), (4, 1), (4, 2), (6, 2), (6, 3), (7, 4)] := by decide
  obtain ⟨p, hrun, hp⟩ := Option.map_eq_some_iff.mp hend
  have hreach : Reach (Publisher.step (fun _ _ => ()) 0)
      (fun p e => p.keepsOrder (fun _ _ => ()) 0 e = true) Publisher.Starts p :=
    .of_run (.start Publisher.starts_fresh) (by decide) hrun
  exact ⟨p, hrun, hp, (published_views_monotone _ 0 hreach).1⟩

/-- A run is cancelled and then sampled once more. -/
def cancelledRun : List ViewEvent :=
  [.quiet (.insertJob 0), .enqueue 0 none, .cancel 0 2 none, .sample]

/-- A job is paused after it completed. -/
def pausedAfterwards : List ViewEvent :=
  [.quiet (.insertJob 0), .enqueue 0 none, .completed 0 0 .completed fun _ => none,
    .pause 0 3 none]

/-- The sample after a cancel goes back to the version before it; a pause after
the run has the number 0 again; and the cancel of a job without a run is
answered with a version that is not the record's. -/
theorem published_views_go_back :
    (∃ p, Reach (Publisher.step (fun _ _ => ()) 0) (fun _ _ => True) Publisher.Starts p ∧
      ¬ p.published.Pairwise fun v w => v.id = w.id → v.controlVersion ≤ w.controlVersion) ∧
    (∃ p, Reach (Publisher.step (fun _ _ => ()) 0) (fun _ _ => True) Publisher.Starts p ∧
      ¬ p.published.Pairwise fun v w => ∀ a, v.attemptId = some a → w.attemptId = some a →
        v.sampleSeq ≤ w.sampleSeq) ∧
    ∃ p view row, Reach (Publisher.step (fun _ _ => ()) 0) (fun _ _ => True) Publisher.Starts p ∧
      p.reply = some (0, .ok view) ∧ p.actor.registry.jobs.get? 0 = some row ∧
      view.controlVersion ≠ row.controlVersion ∧ view.status ≠ row.status := by
  refine ⟨?_, ?_, ?_⟩
  · have hend : ((runEvents (Publisher.step (fun _ _ => ()) 0) .fresh cancelledRun).map fun p =>
        p.published) = some [⟨0, .active, .running, 2, some 0, 0, some ()⟩,
          ⟨0, .active, .cancelled, 3, some 0, 0, some ()⟩,
          ⟨0, .active, .running, 2, some 0, 1, some ()⟩] := by decide
    obtain ⟨p, hrun, hp⟩ := Option.map_eq_some_iff.mp hend
    refine ⟨p, .of_run (.start Publisher.starts_fresh) runOk_true hrun, ?_⟩
    rw [hp]
    decide
  · have hend : ((runEvents (Publisher.step (fun _ _ => ()) 0) .fresh pausedAfterwards).map fun p =>
        p.published) = some [⟨0, .active, .running, 2, some 0, 0, some ()⟩,
          ⟨0, .completed, .running, 3, some 0, 1, some ()⟩,
          ⟨0, .completed, .paused, 4, some 0, 0, none⟩] := by decide
    obtain ⟨p, hrun, hp⟩ := Option.map_eq_some_iff.mp hend
    refine ⟨p, .of_run (.start Publisher.starts_fresh) runOk_true hrun, fun hsorted => ?_⟩
    rw [hp] at hsorted
    have hlast := (List.pairwise_cons.mp (List.pairwise_cons.mp hsorted).2).1 _
      List.mem_cons_self 0 rfl rfl
    exact absurd hlast (by decide)
  · have hend : ((runEvents (Publisher.step (fun _ _ => ()) 0) .fresh
        [.quiet (.insertJob 0), .cancel 0 1 none]).map fun p =>
        (p.reply, p.actor.registry.jobs.get? 0)) =
        some (some (0, .ok ⟨0, .queued, .cancelled, 2, none, 0, none⟩),
          some ⟨.cancelled, .cancelled, 3, none⟩) := by rfl
    obtain ⟨p, hrun, hp⟩ := Option.map_eq_some_iff.mp hend
    obtain ⟨hreply, hrow⟩ := Prod.mk.inj hp
    exact ⟨p, _, _, .of_run (.start Publisher.starts_fresh) runOk_true hrun, hreply, hrow,
      by decide, by decide⟩

end KDown
