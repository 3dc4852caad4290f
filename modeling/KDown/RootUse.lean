/-
KDown/RootUse.lean

Jobs and the roots they refer to.

A root is disabled only while no job on it is live, and a job is created only
on an enabled root; but each side looks first and writes later, and a retry
does not look at all.  `checksHold` says that what an operation saw still holds
when it writes, and that a job comes back to life only on a root that is not
disabled.  Then no live job ever refers to a disabled root.
-/
import KDown.DownloadRoots

namespace KDown

namespace RootStore

variable {s s' : RootStore}

/-! ### Live jobs and disabled roots -/

theorem isDisabled_insert (s : RootStore) (root : ℕ) (record : RootRecord) (r : ℕ) :
    { s with roots := s.roots.insert root record }.isDisabled r =
      if r = root then !record.enabled else s.isDisabled r := by
  unfold isDisabled
  rw [SortedMap.get?_insert]
  split_ifs <;> rfl

theorem isDisabled_of_isEnabled {root : ℕ} (h : s.isEnabled root = true) :
    s.isDisabled root = false := by
  unfold isEnabled at h
  unfold isDisabled
  rcases hroot : s.roots.get? root with _ | record <;> rw [hroot] at h
  · rfl
  · have hen : record.enabled = true := h
    show (!record.enabled) = false
    rw [hen]
    rfl

/-- What it takes for a job to be live on a root. -/
theorem liveOn_iff {root job : ℕ} : s.liveOn root job = true ↔
    s.jobRoot.get? job = some root ∧
      ∃ row, s.registry.jobs.get? job = some row ∧ row.status.isTerminal = false := by
  unfold liveOn
  rw [Bool.and_eq_true, decide_eq_true_eq]
  refine and_congr_right fun _ => ?_
  rcases s.registry.jobs.get? job with _ | row
  · exact iff_of_false (fun hno => by cases hno) (fun ⟨_, hno, _⟩ => by cases hno)
  · constructor
    · intro hrow
      exact ⟨row, rfl, by simpa using hrow⟩
    · rintro ⟨_, ⟨⟩, hrow⟩
      simpa using hrow

/-- The count of `disable_root` finds every live job. -/
theorem liveOn_eq_false_of_inUse {root : ℕ} (h : s.inUse root = false) (job : ℕ) :
    s.liveOn root job = false := by
  rw [Bool.eq_false_iff]
  intro hlive
  have hmem : job ∈ s.jobRoot.keys :=
    List.mem_map.mpr ⟨(job, root), SortedMap.mem_entries.mpr (liveOn_iff.mp hlive).1, rfl⟩
  have hany : s.inUse root = true := List.any_eq_true.mpr ⟨job, hmem, hlive⟩
  rw [h] at hany
  cases hany

/-- The live jobs after the record of one job was written. -/
theorem liveOn_putJob {job : ℕ} {row : JobRecord} {r j : ℕ}
    (h : { s with registry := s.registry.putJob job row }.liveOn r j = true) :
    j ≠ job ∧ s.liveOn r j = true ∨
      j = job ∧ s.jobRoot.get? job = some r ∧ row.status.isTerminal = false := by
  obtain ⟨hroot, row', hrow', hterm⟩ := liveOn_iff.mp h
  rcases eq_or_ne j job with rfl | hne
  · have hrow : some row = some row' := (SortedMap.get?_insert_self ..).symm.trans hrow'
    rw [← Option.some.inj hrow] at hterm
    exact .inr ⟨rfl, hroot, hterm⟩
  · have hrow : s.registry.jobs.get? j = some row' :=
      (SortedMap.get?_insert_of_ne _ _ hne).symm.trans hrow'
    exact .inl ⟨hne, liveOn_iff.mpr ⟨hroot, row', hrow, hterm⟩⟩

/-- Some operation in flight is about to run the statement. -/
def pending (s : RootStore) (statement : RootStatement) : Bool :=
  s.calls.values.contains statement

theorem pending_of_get? {i : ℕ} {statement : RootStatement}
    (h : s.calls.get? i = some statement) : s.pending statement = true := by
  refine List.contains_iff_mem.mpr ?_
  exact List.mem_map.mpr ⟨(i, statement), SortedMap.mem_entries.mpr h, rfl⟩

/-- What was looked at still holds when it is relied on. -/
def checksHold (s : RootStore) : RootEvent → Bool
  | .execute i _ _ =>
      match s.calls.get? i with
      | some (.insertJob root) => !s.pending (.writeDisabled root)
      | some (.writeDisabled root) => !s.pending (.insertJob root)
      | some (.revive job) => (s.jobRoot.get? job).all fun root =>
          !s.isDisabled root && !s.pending (.writeDisabled root)
      | _ => true
  | _ => true

/-! ### The invariant -/

/-- No live job is on a disabled root, a job about to be inserted finds its root
enabled, and a root about to be disabled has no live job. -/
structure Used (s : RootStore) : Prop where
  live : ∀ root job, s.liveOn root job = true → s.isDisabled root = false
  inserting : ∀ i root, s.calls.get? i = some (.insertJob root) → s.isDisabled root = false
  disabling : ∀ i root, s.calls.get? i = some (.writeDisabled root) →
    ∀ job, s.liveOn root job = false

/-- Neither of the two writes that rely on an earlier look. -/
def harmless : RootStatement → Bool
  | .insertJob _ | .writeDisabled _ => false
  | _ => true

/-- Fewer disabled roots, fewer live jobs, and no new write that relies on a
look. -/
theorem Used.mono (h : Used s) (hdisabled : ∀ r, s'.isDisabled r = true → s.isDisabled r = true)
    (hlive : ∀ r j, s'.liveOn r j = true → s.liveOn r j = true)
    (hcalls : ∀ i statement, s'.calls.get? i = some statement →
      s.calls.get? i = some statement ∨ harmless statement = true) : Used s' := by
  have hdisabled' : ∀ r, s.isDisabled r = false → s'.isDisabled r = false := by
    intro r hr
    rw [Bool.eq_false_iff] at hr ⊢
    exact fun hno => hr (hdisabled r hno)
  refine ⟨fun r j hj => hdisabled' r (h.live r j (hlive r j hj)), fun i r hi => ?_,
    fun i r hi j => ?_⟩
  · rcases hcalls i _ hi with hi | hno
    · exact hdisabled' r (h.inserting i r hi)
    · cases hno
  · rcases hcalls i _ hi with hi | hno
    · have hnone := h.disabling i r hi j
      rw [Bool.eq_false_iff] at hnone ⊢
      exact fun hno => hnone (hlive r j hno)
    · cases hno

/-- The calls after one of them moved on. -/
theorem setCall_harmless {i : ℕ} {next : Option RootStatement}
    (hnext : ∀ statement, next = some statement → harmless statement = true) :
    ∀ j statement, (setCall s.calls i next).get? j = some statement →
      s.calls.get? j = some statement ∨ harmless statement = true := by
  intro j statement hj
  rw [get?_setCall] at hj
  split_ifs at hj
  · exact .inr (hnext statement hj)
  · exact .inl hj

/-- An operation moves on without relying on a look. -/
theorem Used.advance (h : Used s) (i : ℕ) {next : Option RootStatement}
    (hnext : ∀ statement, next = some statement → harmless statement = true) :
    Used { s with calls := setCall s.calls i next } :=
  h.mono (fun _ hr => hr) (fun _ _ hj => hj) (setCall_harmless hnext)

/-! ### Statements -/

theorem Used.loadEnabled (h : Used s) {i root : ℕ} (hroot : s.isEnabled root = true) :
    Used { s with calls := setCall s.calls i (some (.insertJob root)) } where
  live := h.live
  inserting j r hj := by
    rw [get?_setCall] at hj
    split_ifs at hj
    · cases hj
      exact isDisabled_of_isEnabled hroot
    · exact h.inserting j r hj
  disabling j r hj := by
    rw [get?_setCall] at hj
    split_ifs at hj
    · cases hj
    · exact h.disabling j r hj

theorem Used.countJobs (h : Used s) {i root : ℕ} (hroot : s.inUse root = false) :
    Used { s with calls := setCall s.calls i (some (.writeDisabled root)) } where
  live := h.live
  inserting j r hj := by
    rw [get?_setCall] at hj
    split_ifs at hj
    · cases hj
    · exact h.inserting j r hj
  disabling j r hj := by
    rw [get?_setCall] at hj
    split_ifs at hj
    · cases hj
      exact liveOn_eq_false_of_inUse hroot
    · exact h.disabling j r hj

/-- A root is replaced by an enabled one. -/
theorem Used.enable (h : Used s) (root : ℕ) (record : RootRecord)
    (hrecord : record.enabled = true) :
    Used { s with roots := s.roots.insert root record } := by
  refine h.mono (fun r hr => ?_) (fun _ _ hj => hj) (fun _ _ hi => .inl hi)
  rw [isDisabled_insert] at hr
  split_ifs at hr
  · rw [hrecord] at hr
    cases hr
  · exact hr

/-- A root without live jobs, and on which none is about to be inserted, is
disabled. -/
theorem Used.disable (h : Used s) (root : ℕ) (record : RootRecord)
    (hlive : ∀ job, s.liveOn root job = false)
    (hinsert : ∀ i, s.calls.get? i ≠ some (.insertJob root)) :
    Used { s with roots := s.roots.insert root record } where
  live r j hj := by
    rw [isDisabled_insert]
    split_ifs with hr
    · have hnone : s.liveOn r j = false := hr ▸ hlive j
      have hsome : s.liveOn r j = true := hj
      rw [hnone] at hsome
      cases hsome
    · exact h.live r j hj
  inserting i r hi := by
    rw [isDisabled_insert]
    split_ifs with hr
    · exact absurd (hr ▸ hi) (hinsert i)
    · exact h.inserting i r hi
  disabling := h.disabling

/-- A job comes to life on a root that is not disabled, nor about to be. -/
theorem Used.revive (h : Used s) (root job : ℕ) (hroot : s.isDisabled root = false)
    (hdisabling : ∀ i, s.calls.get? i ≠ some (.writeDisabled root))
    (hroots : s'.roots = s.roots) (hcalls : s'.calls = s.calls)
    (hlive : ∀ r j, s'.liveOn r j = true → s.liveOn r j = true ∨ r = root ∧ j = job) : Used s' := by
  have hsame : ∀ r, s'.isDisabled r = s.isDisabled r := by
    intro r
    unfold isDisabled
    rw [hroots]
  refine ⟨fun r j hj => ?_, fun i r hi => ?_, fun i r hi j => ?_⟩
  · rw [hsame]
    rcases hlive r j hj with hj | ⟨rfl, -⟩
    · exact h.live r j hj
    · exact hroot
  · rw [hsame]
    exact h.inserting i r (hcalls ▸ hi)
  · rw [hcalls] at hi
    rw [Bool.eq_false_iff]
    intro hj
    rcases hlive r j hj with hj | ⟨rfl, -⟩
    · rw [h.disabling i r hi j] at hj
      cases hj
    · exact hdisabling i hi

/-- An operation moves on, and a record is written of a job that was live or
stays terminal. -/
theorem Used.putJob (h : Used s) {job : ℕ} {row : JobRecord} (row' : JobRecord)
    (hrow : s.registry.jobs.get? job = some row)
    (hterm : row.status.isTerminal = true → row'.status.isTerminal = true) :
    Used { s with registry := s.registry.putJob job row' } := by
  refine h.mono (fun _ hr => hr) (fun r j hj => ?_) (fun _ _ hi => .inl hi)
  rcases liveOn_putJob hj with ⟨-, hj⟩ | ⟨rfl, hroot, hlive⟩
  · exact hj
  · refine liveOn_iff.mpr ⟨hroot, row, hrow, ?_⟩
    rw [Bool.eq_false_iff] at hlive ⊢
    exact fun hno => hlive (hterm hno)

theorem not_pending {i : ℕ} {next : Option RootStatement} {statement : RootStatement}
    (h : (!s.pending statement) = true) (hnext : next ≠ some statement) (j : ℕ) :
    (setCall s.calls i next).get? j ≠ some statement := by
  intro hj
  rw [get?_setCall] at hj
  split_ifs at hj
  · exact hnext hj
  · rw [pending_of_get? hj] at h
    cases h

/-- A job is created on a root that is not disabled, nor about to be. -/
theorem Used.insertJob (h : Used s) (root fresh : ℕ) (hroot : s.isDisabled root = false)
    (hdisabling : ∀ i, s.calls.get? i ≠ some (.writeDisabled root)) :
    Used { s with
      registry := s.registry.insertJob fresh
      jobRoot := s.jobRoot.insert fresh root } := by
  refine h.revive root fresh hroot hdisabling rfl rfl fun r j hj => ?_
  obtain ⟨hjr, row, hrow, hterm⟩ := liveOn_iff.mp hj
  rcases eq_or_ne j fresh with rfl | hne
  · have hself : some root = some r := (SortedMap.get?_insert_self ..).symm.trans hjr
    exact .inr ⟨(Option.some.inj hself).symm, rfl⟩
  · refine .inl (liveOn_iff.mpr ⟨?_, row, ?_, hterm⟩)
    · exact (SortedMap.get?_insert_of_ne _ _ hne).symm.trans hjr
    · exact (SortedMap.get?_insert_of_ne _ _ hne).symm.trans hrow

/-- The record of a job is replaced by any other; a root it has is not
disabled, nor about to be. -/
theorem Used.reviveJob (h : Used s) (job : ℕ) (row : JobRecord)
    (hroot : ∀ root, s.jobRoot.get? job = some root → s.isDisabled root = false ∧
      ∀ i, s.calls.get? i ≠ some (.writeDisabled root)) :
    Used { s with registry := s.registry.putJob job row } := by
  have hlive : ∀ r j, { s with registry := s.registry.putJob job row }.liveOn r j = true →
      s.liveOn r j = true ∨ s.jobRoot.get? job = some r ∧ j = job := by
    intro r j hj
    rcases liveOn_putJob hj with ⟨-, hj⟩ | ⟨rfl, hroot, -⟩
    · exact .inl hj
    · exact .inr ⟨hroot, rfl⟩
  rcases hjob : s.jobRoot.get? job with _ | root
  · -- a job without a root uses none
    refine h.mono (fun _ hr => hr) (fun r j hj => ?_) (fun _ _ hi => .inl hi)
    refine (hlive r j hj).resolve_right fun hno => ?_
    rw [hjob] at hno
    cases hno.1
  · obtain ⟨hdisabled, hdisabling⟩ := hroot root hjob
    refine h.revive root job hdisabled hdisabling rfl rfl fun r j hj => ?_
    refine (hlive r j hj).imp_right fun hr => ⟨?_, hr.2⟩
    rw [hjob] at hr
    exact (Option.some.inj hr.1).symm

/-- One statement after the other, of all operations. -/
theorem Used.execute (h : Used s) {i fresh : ℕ} {queued : Bool} {statement : RootStatement}
    {s₁ : RootStore} {next : Option RootStatement} (hi : s.calls.get? i = some statement)
    (hok : s.checksHold (.execute i fresh queued) = true)
    (hexec : s.execute fresh queued statement = some (s₁, next)) :
    Used { s₁ with calls := setCall s.calls i next } := by
  -- most operations end, or go on with a statement that relies on nothing
  have hend : Used { s with calls := setCall s.calls i none } :=
    h.advance i fun _ hno => by cases hno
  have hgo : ∀ statement, harmless statement = true →
      Used { s with calls := setCall s.calls i (some statement) } := by
    intro statement hharm
    refine h.advance i fun statement' hs => ?_
    rw [← Option.some.inj hs]
    exact hharm
  have hif : ∀ (p : Bool) statement, harmless statement = true →
      Used { s with calls := setCall s.calls i (if p then some statement else none) } := by
    intro p statement hharm
    cases p with
    | true => exact hgo statement hharm
    | false => exact hend
  simp only [checksHold, hi] at hok
  cases statement with
  | selectPath path makeDefault =>
    simp only [RootStore.execute] at hexec
    split at hexec <;> cases hexec
    · exact hif _ _ rfl
    · exact hgo _ rfl
  | insertRoot path makeDefault =>
    simp only [RootStore.execute] at hexec
    split_ifs at hexec <;> cases hexec
    · exact hend
    · exact { (hgo (.loadDefault fresh) rfl).enable fresh ⟨path, true, makeDefault⟩ rfl with }
    · exact { hend.enable fresh ⟨path, true, makeDefault⟩ rfl with }
  | loadDefault root | loadSettingsRoot root =>
    cases hexec
    exact hif _ _ rfl
  | writeDefault root | writeSettings root =>
    cases hexec
    exact { hend with }
  | writeEnabled root =>
    cases hexec
    rcases hroot : s.roots.get? root with _ | record <;> simp only [setRoot, hroot]
    · exact hend
    · exact { hend.enable root { record with enabled := true } rfl with }
  | countJobs root =>
    cases hexec
    by_cases huse : s.inUse root = true
    · simp only [if_pos huse]
      exact hend
    · simp only [if_neg huse]
      exact h.countJobs (by simpa using huse)
  | writeDisabled root =>
    cases hexec
    rcases hroot : s.roots.get? root with _ | record <;>
      simp only [setRoot, hroot, SortedMap.contains, Option.isSome_some, if_true]
    · exact hend
    exact { (hgo (.clearDefault root) rfl).disable root
      { record with enabled := false, isDefault := false }
      (h.disabling i root hi) (not_pending hok (fun hno => by cases hno)) with }
  | clearDefault root =>
    cases hexec
    split_ifs
    · exact { hend with }
    · exact hend
  | loadEnabled root =>
    cases hexec
    by_cases hroot : s.isEnabled root = true
    · simp only [if_pos hroot]
      exact h.loadEnabled hroot
    · simp only [if_neg hroot]
      exact hend
  | insertJob root =>
    simp only [RootStore.execute] at hexec
    split_ifs at hexec with hfresh
    cases hexec
    exact { hend.insertJob root fresh (h.inserting i root hi)
      (not_pending hok (fun hno => by cases hno)) with }
  | loadTerminal job expected =>
    cases hexec
    refine h.advance i fun statement hs => ?_
    split at hs
    · split_ifs at hs
      rw [← Option.some.inj hs]
      rfl
    · cases hs
  | setDesired job expected =>
    simp only [RootStore.execute] at hexec
    split at hexec
    · cases hexec
      exact hend
    · next registry hcas =>
      cases hexec
      obtain ⟨row, hrow, -, rfl⟩ := Registry.compareAndSetDesired_eq_ok hcas
      exact { (hgo (.revive job) rfl).putJob
        { row with desiredState := .running, controlVersion := expected + 1 } hrow id with }
  | revive job =>
    simp only [RootStore.execute] at hexec
    split at hexec
    · cases hexec
      exact hend
    · next registry hmark =>
      cases hexec
      obtain ⟨row, -, -, rfl⟩ := Registry.markStatus_eq_ok hmark
      refine { hend.reviveJob job
        (Registry.withStatus row (if queued then .queued else .active)) fun root hroot => ?_ with }
      have hjob : s.jobRoot.get? job = some root := hroot
      simp only [hjob, Option.all_some] at hok
      obtain ⟨henabled, hpending⟩ := Bool.and_eq_true_iff.mp hok
      have hdisabled : s.isDisabled root = false := by simpa using henabled
      exact ⟨hdisabled, not_pending hpending (fun hno => by cases hno)⟩

/-- **The invariant is kept** when what was looked at still holds. -/
theorem Used.step (h : Used s) {e : RootEvent} (hok : s.checksHold e = true)
    (hs : s.step e = some s') : Used s' := by
  rcases step_cases hs with ⟨i, statement, rfl, hi, hopens, rfl⟩ |
    ⟨i, fresh, queued, statement, s₁, next, rfl, hi, hexec, rfl⟩ |
    ⟨job, status, row, rfl, hrow, hterm, rfl⟩
  · -- no operation opens with a write that relies on a look
    refine h.advance i fun statement' hs' => ?_
    rw [← Option.some.inj hs']
    cases statement <;> first | rfl | cases hopens
  · exact h.execute hi hok hexec
  · unfold Registry.bumpJobStatus
    rw [hrow]
    dsimp only
    split_ifs
    · refine h.putJob _ hrow fun hno => ?_
      rw [hterm] at hno
      cases hno
    · exact h

theorem used_init : Used init where
  live root job h := by cases h
  inserting i root h := by cases h
  disabling i root h := by cases h

/-- **No live job on a disabled root.**  In every run in which what creation and
disabling looked at still holds when they write, and no job is retried on a root
that is disabled or about to be, no live job refers to a disabled root. -/
theorem no_live_job_on_disabled_root {s : RootStore}
    (h : Reach step (fun s e => s.checksHold e = true) (· = init) s) (root job : ℕ)
    (hlive : s.liveOn root job = true) : s.isDisabled root = false := by
  have hused : Used s :=
    Reach.invariant (fun s₀ h₀ => h₀ ▸ used_init) (fun s₁ e s₂ h₁ hok hs => h₁.step hok hs) h
  exact hused.live root job hlive

/-- A root is added, a job is created on it, and disabling the root is refused. -/
def refusedDisable : List RootEvent :=
  [.invoke 0 (.selectPath "/srv" false), .execute 0 1 false, .execute 0 1 false,
    .invoke 0 (.loadEnabled 1), .execute 0 0 false, .execute 0 7 false,
    .invoke 0 (.countJobs 1), .execute 0 0 false]

/-- The root that has a job stays enabled. -/
theorem no_live_job_on_disabled_root_refused :
    ∃ s, runEvents step init refusedDisable = some s ∧ s.liveOn 1 7 = true ∧
      s.isDisabled 1 = false := by
  have hend : ((runEvents step init refusedDisable).map fun s => s.liveOn 1 7) = some true := by
    decide
  obtain ⟨s, hrun, hlive⟩ := Option.map_eq_some_iff.mp hend
  have hreach : Reach step (fun s e => s.checksHold e = true) (· = init) s :=
    .of_run (.start rfl) (by decide) hrun
  exact ⟨s, hrun, hlive, no_live_job_on_disabled_root hreach 1 7 hlive⟩

/-- A job is created on a root that is disabled after the job's look at it; and
a job that failed is retried after its root was disabled. -/
theorem live_jobs_on_disabled_roots :
    (∃ s, Reach step (fun _ _ => True) (· = init) s ∧ s.liveOn 1 7 = true ∧
      s.isDisabled 1 = true) ∧
    ∃ s, Reach step (fun _ _ => True) (· = init) s ∧ s.liveOn 1 7 = true ∧
      s.isDisabled 1 = true := by
  constructor
  · have hend : ((runEvents step init
        [.invoke 0 (.selectPath "/srv" false), .execute 0 1 false, .execute 0 1 false,
          .invoke 0 (.loadEnabled 1), .execute 0 0 false,
          .invoke 1 (.countJobs 1), .execute 1 0 false, .execute 1 0 false,
          .execute 0 7 false]).map fun s => (s.liveOn 1 7, s.isDisabled 1)) =
        some (true, true) := by decide
    obtain ⟨s, hrun, hs⟩ := Option.map_eq_some_iff.mp hend
    exact ⟨s, .of_run (.start rfl) runOk_true hrun, Prod.mk.inj hs⟩
  · have hend : ((runEvents step init
        [.invoke 0 (.selectPath "/srv" false), .execute 0 1 false, .execute 0 1 false,
          .invoke 0 (.loadEnabled 1), .execute 0 0 false, .execute 0 7 false,
          .milestone 7 .failed,
          .invoke 0 (.countJobs 1), .execute 0 0 false, .execute 0 0 false, .execute 0 0 false,
          .invoke 0 (.loadTerminal 7 2), .execute 0 0 false, .execute 0 0 false,
          .execute 0 0 true]).map fun s => (s.liveOn 1 7, s.isDisabled 1)) =
        some (true, true) := by decide
    obtain ⟨s, hrun, hs⟩ := Option.map_eq_some_iff.mp hend
    exact ⟨s, .of_run (.start rfl) runOk_true hrun, Prod.mk.inj hs⟩

end RootStore

end KDown
