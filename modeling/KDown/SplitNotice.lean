/-
KDown/SplitNotice.lean

How the owner of a lease learns that it was split (job/segmented.rs).

A split shortens the lease in the scheduler and then counts a revision up.  The
owner sits in the loop of `consume_legacy_body` or `consume_pipelined_body`.  At
the top of the loop it marks the current revision as seen; then it selects
between the next chunk, a completion and a change of the revision, and only the
last reads the live end of the lease.  So a notification is lost when the owner
is elsewhere in its loop: the mark at the top takes it, and so does the wait for
read-ahead of the pipelined path.  And a select is free to take the chunk while
a notification is pending.

* `notices` is the split a worker has applied and not announced yet;
  `notify_transition` follows `split_tail` at once, so a worker does nothing else
  in between.
* `announced` is the shortest end announced for a lease, and `unread` says that
  a worker has not read its boundary since it took its lease or since a split of
  its lease was announced.

`observes` is the condition that none of this happens, and that a split leaves
the owner what it has received and not published.
-/
import KDown.LeaseTracking
import KDown.WatchSignal

namespace KDown

/-- Where a worker stands in the loop that consumes a body. -/
inductive LoopPoint
  | top
  /-- Waiting for read-ahead and a reservation; the pipelined path only. -/
  | reserving
  | polling
  deriving DecidableEq, Repr

/-- The job, with the signal and where each worker stands in its loop. -/
structure NoticeState where
  job : SegmentedState
  signal : Watch ℕ
  points : ℕ → LoopPoint
  reserved : ℕ → Bool
  notices : ℕ → Option (ℕ × ℕ)
  announced : ℕ → Option ℕ
  unread : ℕ → Bool

/-- The job or the loop of a worker takes a step. -/
inductive NoticeEvent
  | job (e : SegmentedEvent)
  /-- The top of the loop: `borrow_and_update`. -/
  | mark (w : ℕ)
  /-- The wait for read-ahead takes a notification. -/
  | await (w : ℕ)
  | reserve (w : ℕ)
  /-- The notification of a split. -/
  | announce (w : ℕ)
  /-- The notification of another transition. -/
  | touch

/-- The body a worker consumes. -/
def Phase.transfer? : Phase → Option Transfer
  | .reading t | .writing t _ _ | .pipelining t _ => some t
  | _ => none

/-- The worker is in the loop and not writing. -/
def Phase.inLoop : Phase → Bool
  | .reading _ | .pipelining _ _ => true
  | _ => false

/-- The worker has a lease whose boundary it has not read. -/
def Phase.isFresh : Phase → Bool
  | .holding _ | .opening _ => true
  | _ => false

namespace NoticeState

variable (cfg : SegmentedConfig)

/-- The event is one of the loop's where the worker stands. -/
def allows (s : NoticeState) : SegmentedEvent → Bool
  | .worker w e => (s.notices w).isNone &&
      match e with
      | .receive _ | .endOfBody | .bodyFault _ => s.points w = .polling
      | .refresh => !(s.job.phases w).inLoop || (s.points w = .polling && s.signal.changed w)
      | .settleCompletion => !(s.job.phases w).inLoop || s.points w ≠ .top
      | _ => true
  | _ => true

/-- What an event of the job does to the signal and the loops. -/
def after (s : NoticeState) (job : SegmentedState) : SegmentedEvent → NoticeState
  | .worker w (.acquire _ _) => { s with job := job, unread := Function.update s.unread w true }
  | .worker w (.split leaseId _) =>
      { s with
        job := job
        unread := Function.update s.unread w true
        notices := Function.update s.notices w
          ((job.sched.active.get? leaseId).map fun lease => (leaseId, lease.stop)) }
  | .worker w .refresh =>
      { s with
        job := job
        -- the first read of a body's boundary looks at no revision
        signal := if (s.job.phases w).inLoop then s.signal.markSeen w else s.signal
        points := Function.update s.points w .top
        reserved := Function.update s.reserved w ((s.job.phases w).inLoop && s.reserved w)
        unread := Function.update s.unread w false }
  | .worker w (.receive _) =>
      { s with
        job := job
        points := Function.update s.points w .top
        reserved := Function.update s.reserved w false }
  | .worker w .settleCompletion =>
      { s with
        job := job
        points := Function.update s.points w
          (if s.points w = .polling then .top else s.points w) }
  | _ => { s with job := job }

/-- One event. -/
def step (s : NoticeState) : NoticeEvent → Option NoticeState
  | .job e => if s.allows e then (segmentedStep cfg s.job e).map fun job => s.after job e else none
  | .mark w =>
      if (s.job.phases w).inLoop && s.points w = .top then
        some { s with
          signal := s.signal.markSeen w
          points := Function.update s.points w
            (if cfg.pipelined && !s.reserved w then .reserving else .polling) }
      else none
  | .await w =>
      if (s.job.phases w).inLoop && s.points w = .reserving && s.signal.changed w then
        some { s with signal := s.signal.markSeen w }
      else none
  | .reserve w =>
      if (s.job.phases w).inLoop && s.points w = .reserving then
        some { s with
          points := Function.update s.points w .polling
          reserved := Function.update s.reserved w true }
      else none
  | .announce w =>
      (s.notices w).map fun notice =>
        { s with
          signal := s.signal.send
          notices := Function.update s.notices w none
          announced := Function.update s.announced notice.1
            (some ((s.announced notice.1).elim notice.2 (min notice.2)))
          unread := fun v => s.unread v ||
            (s.job.phases v).lease?.any fun lease => lease.id = notice.1 }
  | .touch => some { s with signal := s.signal.send }

/-- The job before its first event. -/
def init : NoticeState where
  job := segmentedInit cfg
  signal := .new
  points := fun _ => .top
  reserved := fun _ => false
  notices := fun _ => none
  announced := fun _ => none
  unread := fun _ => false

/-! ### The condition -/

/-- The lease the worker would read the boundary of is live. -/
def readable (s : NoticeState) (w : ℕ) : Bool :=
  (s.job.phases w).lease?.all fun lease =>
    (s.job.sched.leaseEnd lease.id lease.generation).isSome

/-- What the owner has received past the published watermark fits into the half
of the rest that a split leaves to it. -/
def leavesReceived (s : NoticeState) (leaseId : ℕ) : Bool :=
  (List.range cfg.workers).all fun v =>
    !((s.job.phases v).lease?.any fun lease => lease.id = leaseId) ||
      (s.job.sched.active.get? leaseId).all fun lease =>
        s.job.reached v + (lease.stop -
          max lease.nextOffset (s.job.cellReceivedThrough cfg.workers leaseId) + 1) / 2 ≤
            lease.stop + 1

/-- No mark, wait or chunk comes between the announcement of a split and the
owner's reading of it, the lease is live when it is read, and a split leaves
the owner what it has received. -/
def observes (s : NoticeState) : NoticeEvent → Bool
  | .mark w | .await w | .job (.worker w (.receive _)) => !s.unread w
  | .job (.worker w .refresh) => !s.unread w || s.readable w
  | .job (.worker _ (.split leaseId _)) => s.leavesReceived cfg leaseId
  | _ => true

end NoticeState

/-! ### What an event does to the boundaries -/

namespace SegmentedState

variable {cfg : SegmentedConfig} {s s' : SegmentedState} {w : ℕ}

/-- The event of `w` keeps the boundary of every body and takes no lease. -/
structure KeepsBoundary (s s' : SegmentedState) (w : ℕ) : Prop where
  others : ∀ v, v ≠ w → s'.phases v = s.phases v
  body : ∀ t', (s'.phases w).transfer? = some t' → ∃ t, (s.phases w).transfer? = some t ∧
    t'.lease = t.lease ∧ t'.effectiveEnd = t.effectiveEnd
  fresh : (s'.phases w).isFresh = true → (s.phases w).isFresh = true

/-- The worker leaves the body. -/
theorem KeepsBoundary.leave {p : Phase} (hphases : s'.phases = Function.update s.phases w p)
    (hbody : p.transfer? = none) (hfresh : p.isFresh = true → (s.phases w).isFresh = true) :
    KeepsBoundary s s' w := by
  refine ⟨fun v hv => ?_, fun t' ht' => ?_, fun h => ?_⟩
  · rw [hphases, Function.update_of_ne hv]
  · rw [hphases, Function.update_self, hbody] at ht'
    cases ht'
  · rw [hphases, Function.update_self] at h
    exact hfresh h

/-- The worker goes on with the body. -/
theorem KeepsBoundary.stay {p : Phase} {t t' : Transfer}
    (hphases : s'.phases = Function.update s.phases w p) (hbody : p.transfer? = some t')
    (hold : (s.phases w).transfer? = some t) (hlease : t'.lease = t.lease)
    (hend : t'.effectiveEnd = t.effectiveEnd) (hfresh : p.isFresh = false) :
    KeepsBoundary s s' w := by
  refine ⟨fun v hv => ?_, fun u hu => ?_, fun h => ?_⟩
  · rw [hphases, Function.update_of_ne hv]
  · rw [hphases, Function.update_self, hbody] at hu
    cases hu
    exact ⟨t, hold, hlease, hend⟩
  · rw [hphases, Function.update_self, hfresh] at h
    cases h

theorem KeepsBoundary.of_phases (hphases : s'.phases = s.phases) : KeepsBoundary s s' w := by
  refine ⟨fun v _ => by rw [hphases], fun t' ht' => ?_, fun h => by rwa [hphases] at h⟩
  rw [hphases] at ht'
  exact ⟨t', ht', rfl, rfl⟩

theorem KeepsBoundary.bodyFault {e : DownloadError} (hs : s.bodyFault cfg w e = some s') :
    KeepsBoundary s s' w := by
  unfold SegmentedState.bodyFault at hs
  split at hs
  · cases hs
    exact .leave rfl rfl fun h => by cases h
  · split at hs <;> cases hs <;> exact .leave rfl rfl fun h => by cases h
  · cases hs

/-- What is received leaves the announced end where it is. -/
theorem KeepsBoundary.receive {len : ℕ} (hs : s.receive cfg w len = some s') :
    KeepsBoundary s s' w := by
  unfold SegmentedState.receive at hs
  split at hs
  · next t hphase =>
    split_ifs at hs
    · exact .bodyFault hs
    · dsimp only at hs
      split_ifs at hs <;> cases hs
      · exact .leave rfl rfl fun h => by cases h
      · exact .stay (t := t) rfl rfl (by rw [hphase]; rfl) rfl rfl rfl
  · next t f hphase =>
    split_ifs at hs
    · exact .bodyFault hs
    · dsimp only at hs
      split_ifs at hs with hnone htrunc <;> cases hs
      · exact .leave rfl rfl fun h => by cases h
      · exact .leave rfl rfl fun h => by cases h
      · exact .stay (t := t) rfl rfl (by rw [hphase]; rfl) rfl rfl rfl
  · cases hs

theorem KeepsBoundary.writeAck {failure : Option DownloadError}
    (hs : s.writeAck w failure = some s') : KeepsBoundary s s' w := by
  unfold SegmentedState.writeAck at hs
  split at hs
  · next t owned truncated hphase =>
    rcases failure with _ | e <;> dsimp only at hs
    · cases truncated <;> cases hs
      · exact .stay (t := t) rfl rfl (by rw [hphase]; rfl) rfl rfl rfl
      · exact .leave rfl rfl fun h => by cases h
    · cases hs
      exact .leave rfl rfl fun h => by cases h
  · cases hs

theorem KeepsBoundary.settleCompletion {t : Transfer} {f : LeaseFrontier}
    {back : LeaseFrontier → Phase} (hs : s.settleCompletion w t f back = some s')
    (hback : ∀ f', ∀ q : SegmentedState, q.phases = Function.update s.phases w (back f') →
      KeepsBoundary s q w) : KeepsBoundary s s' w := by
  unfold SegmentedState.settleCompletion at hs
  split at hs
  · cases hs
  dsimp only at hs
  split at hs <;> cases hs
  · exact hback _ _ rfl
  · exact .leave rfl rfl fun h => by cases h
  · exact hback _ _ rfl

theorem KeepsBoundary.drained {t : Transfer} {f : LeaseFrontier} {retry : Option DownloadError}
    (hs : s.drained w t f retry = some s') : KeepsBoundary s s' w := by
  unfold SegmentedState.drained at hs
  rcases retry with _ | e <;> dsimp only at hs
  · split_ifs at hs <;> cases hs <;> exact .leave rfl rfl fun h => by cases h
  · split_ifs at hs
    cases hs
    exact .leave rfl rfl fun h => by cases h

/-- Only a refresh moves a boundary, and only `acquire` and `split` take a
lease. -/
theorem workerStep_keepsBoundary {e : WorkerEvent} (hs : s.workerStep cfg w e = some s')
    (hacquire : ∀ d n, e ≠ .acquire d n) (hsplit : ∀ l n, e ≠ .split l n)
    (hrefresh : e ≠ .refresh) : KeepsBoundary s s' w := by
  cases e with
  | acquire d n => exact absurd rfl (hacquire d n)
  | split l n => exact absurd rfl (hsplit l n)
  | refresh => exact absurd rfl hrefresh
  | exit =>
    simp only [workerStep] at hs
    split at hs
    · split_ifs at hs
      cases hs
      exact .leave rfl rfl fun h => by cases h
    · cases hs
  | respond status headers =>
    simp only [workerStep] at hs
    split at hs
    · next lease hphase =>
      cases hs
      have hfresh : (s.phases w).isFresh = true := by
        rw [hphase]
        rfl
      unfold SegmentedState.respond
      dsimp only
      split <;> exact .leave rfl rfl fun _ => hfresh
    · cases hs
  | requestFault e =>
    simp only [workerStep] at hs
    split at hs <;> cases hs
    exact .leave rfl rfl fun h => by cases h
  | receive len => exact .receive hs
  | writeAck failure => exact .writeAck hs
  | execute index outcome =>
    simp only [workerStep, SegmentedState.execute] at hs
    split at hs <;> cases hs
    exact .of_phases rfl
  | settleCompletion =>
    simp only [workerStep] at hs
    split at hs
    · next t f hphase =>
      refine .settleCompletion hs fun f' q hq => ?_
      exact .stay (t := t) hq rfl (by rw [hphase]; rfl) rfl rfl rfl
    · exact .settleCompletion hs fun f' q hq => .leave hq rfl fun h => by cases h
    · cases hs
  | endOfBody =>
    simp only [workerStep] at hs
    split at hs <;> cases hs <;> exact .leave rfl rfl fun h => by cases h
  | bodyFault e => exact .bodyFault hs
  | drained =>
    simp only [workerStep] at hs
    split at hs
    · exact .drained hs
    · cases hs
  | abort =>
    simp only [workerStep] at hs
    split_ifs at hs
    split at hs <;> cases hs <;> exact .leave rfl rfl fun h => by cases h
  | finish =>
    simp only [workerStep] at hs
    split at hs <;> cases hs
    exact .leave rfl rfl fun h => by cases h
  | settle now =>
    simp only [workerStep] at hs
    split at hs
    · next lease call todo hphase =>
      cases hs
      have hphases : ∀ p, ((s.performSettle cfg w lease now call).setPhase w p).phases =
          Function.update s.phases w p := by
        intro p
        rw [SegmentedState.setPhase, performSettle_phases]
      by_cases htodo : todo.isEmpty
      · rw [if_pos htodo]
        unfold afterSettle
        split
        · exact .leave (hphases _) rfl fun h => by cases h
        · split_ifs <;> exact .leave (hphases _) rfl fun h => by cases h
        · exact .leave (hphases _) rfl fun h => by cases h
      · rw [if_neg htodo]
        exact .leave (hphases _) rfl fun h => by cases h
    · cases hs

/-- An idle worker takes a lease, or stays idle. -/
theorem acquire_phases {d n : ℕ} (hs : s.workerStep cfg w (.acquire d n) = some s') :
    (∀ v, v ≠ w → s'.phases v = s.phases v) ∧ (s'.phases w).transfer? = none := by
  simp only [workerStep] at hs
  split at hs
  · next hidle =>
    split at hs <;> cases hs
    · exact ⟨fun v hv => Function.update_of_ne hv _ _,
        by simp [SegmentedState.setPhase, Phase.transfer?]⟩
    · exact ⟨fun v _ => rfl, by rw [hidle]; rfl⟩
  · cases hs

/-- A split is applied under the watermark that is published. -/
theorem split_cases {leaseId n : ℕ} (hs : s.workerStep cfg w (.split leaseId n) = some s') :
    ∃ generation tail sched, s.sched.splitTail leaseId generation s.sched.policy.splitThreshold
        (s.cellReceivedThrough cfg.workers leaseId) n = some (tail, sched) ∧
      s' = { s with sched := sched }.setPhase w (.holding tail) := by
  simp only [workerStep] at hs
  split at hs
  · split at hs
    · cases hs
    next b hfind =>
    have hb : b.id = leaseId := by simpa using List.find?_some hfind
    split at hs <;> cases hs
    next tail sched hsplit =>
    rw [hb] at hsplit
    exact ⟨b.generation, tail, sched, hsplit, rfl⟩
  · cases hs

/-- A refresh reads the live end of the lease. -/
theorem refresh_cases (hs : s.workerStep cfg w .refresh = some s') :
    (∀ v, v ≠ w → s'.phases v = s.phases v) ∧ s'.sched = s.sched ∧
    (s'.phases w).isFresh = false ∧ ∃ t, (s'.phases w).transfer? = some (s.refreshed t) ∧
      (s.phases w).lease? = some t.lease ∧
      (s.phases w = .opening t ∨ (s.phases w).transfer? = some t ∧ (s.phases w).inLoop = true) := by
  simp only [workerStep] at hs
  split at hs
  · next t hphase =>
    cases hs
    refine ⟨fun v hv => Function.update_of_ne hv _ _, rfl, ?_, t, ?_, ?_, .inl hphase⟩
    · simp only [SegmentedState.setPhase, Function.update_self]
      split_ifs <;> rfl
    · simp only [SegmentedState.setPhase, Function.update_self]
      split_ifs <;> rfl
    · rw [hphase]
      rfl
  · next t hphase =>
    cases hs
    refine ⟨fun v hv => Function.update_of_ne hv _ _, rfl, ?_, t, ?_, ?_, .inr ⟨?_, ?_⟩⟩
    · simp [SegmentedState.setPhase, Phase.isFresh]
    · simp [SegmentedState.setPhase, Phase.transfer?]
    all_goals rw [hphase]; rfl
  · next t f hphase =>
    cases hs
    refine ⟨fun v hv => Function.update_of_ne hv _ _, rfl, ?_, t, ?_, ?_, .inr ⟨?_, ?_⟩⟩
    · simp [SegmentedState.setPhase, Phase.isFresh]
    · simp [SegmentedState.setPhase, Phase.transfer?]
    all_goals rw [hphase]; rfl
  · cases hs

end SegmentedState

/-! ### The invariant -/

/-- A lease of this id, if there is one, ends at `stop` or before, and so does
any it becomes. -/
def SegmentScheduler.EndsBy (sched : SegmentScheduler) (id stop : ℕ) : Prop :=
  id < sched.nextLease ∧ ∀ lease, sched.active.get? id = some lease → lease.stop ≤ stop

theorem SegmentScheduler.EndsBy.steps {sched sched' : SegmentScheduler} {id stop : ℕ}
    (h : sched.EndsBy id stop) (hsteps : Relation.ReflTransGen Ledger.Step sched.ledger sched'.ledger) :
    sched'.EndsBy id stop := by
  have hnarrows := Ledger.narrows_of_steps hsteps
  refine ⟨h.1.trans_le hnarrows.nextLease_le, fun lease' hlease' => ?_⟩
  obtain ⟨lease, hlease, -, hle⟩ := hnarrows.lease h.1 hlease'
  exact hle.trans (h.2 lease hlease)

namespace NoticeState

variable {cfg : SegmentedConfig} {s s' : NoticeState} {w : ℕ}

/-- Announced ends are real, an owner that has nothing unread stops at them, and
one that has is still to be notified. -/
structure Observed (s : NoticeState) : Prop where
  wellFormed : s.job.sched.ledger.WellFormed
  announced : ∀ id stop, s.announced id = some stop → s.job.sched.EndsBy id stop
  notices : ∀ w id stop, s.notices w = some (id, stop) → s.job.sched.EndsBy id stop
  read : ∀ w t, (s.job.phases w).transfer? = some t → s.unread w = false →
    ∀ stop, s.announced t.lease.id = some stop → t.effectiveEnd ≤ stop
  pending : ∀ w t, (s.job.phases w).transfer? = some t → s.unread w = true →
    s.signal.changed w = true
  fresh : ∀ w, (s.job.phases w).isFresh = true → s.unread w = true

/-- The event leaves signal, announcements and boundaries. -/
theorem Observed.keep (h : s.Observed)
    (hsteps : Relation.ReflTransGen Ledger.Step s.job.sched.ledger s'.job.sched.ledger)
    (hkeeps : SegmentedState.KeepsBoundary s.job s'.job w) (hsignal : s'.signal = s.signal)
    (hannounced : s'.announced = s.announced) (hnotices : s'.notices = s.notices)
    (hunread : s'.unread = s.unread) : s'.Observed := by
  have hbody : ∀ v t', (s'.job.phases v).transfer? = some t' →
      ∃ t, (s.job.phases v).transfer? = some t ∧ t'.lease = t.lease ∧
        t'.effectiveEnd = t.effectiveEnd := by
    intro v t' ht'
    rcases eq_or_ne v w with rfl | hne
    · exact hkeeps.body t' ht'
    · rw [hkeeps.others v hne] at ht'
      exact ⟨t', ht', rfl, rfl⟩
  refine ⟨h.wellFormed.steps hsteps, fun id stop hid => ?_, fun v id stop hv => ?_,
    fun v t' ht' hv stop hstop => ?_, fun v t' ht' hv => ?_, fun v hv => ?_⟩
  · rw [hannounced] at hid
    exact (h.announced id stop hid).steps hsteps
  · rw [hnotices] at hv
    exact (h.notices v id stop hv).steps hsteps
  · obtain ⟨t, ht, hlease, hend⟩ := hbody v t' ht'
    rw [hunread] at hv
    rw [hannounced, hlease] at hstop
    rw [hend]
    exact h.read v t ht hv stop hstop
  · obtain ⟨t, ht, -⟩ := hbody v t' ht'
    rw [hunread] at hv
    rw [hsignal]
    exact h.pending v t ht hv
  · rw [hunread]
    rcases eq_or_ne v w with rfl | hne
    · exact h.fresh v (hkeeps.fresh hv)
    · rw [hkeeps.others v hne] at hv
      exact h.fresh v hv

/-- The worker takes a lease it has read nothing of; a split leaves a notice. -/
theorem Observed.take (h : s.Observed)
    (hsteps : Relation.ReflTransGen Ledger.Step s.job.sched.ledger s'.job.sched.ledger)
    (hothers : ∀ v, v ≠ w → s'.job.phases v = s.job.phases v)
    (hnone : (s'.job.phases w).transfer? = none) (hsignal : s'.signal = s.signal)
    (hannounced : s'.announced = s.announced)
    (hnotices : ∀ v id stop, s'.notices v = some (id, stop) → s.notices v = some (id, stop) ∨
      ∃ lease, s'.job.sched.active.get? id = some lease ∧ lease.stop = stop)
    (hunread : s'.unread = Function.update s.unread w true) : s'.Observed := by
  have hwf := h.wellFormed.steps hsteps
  have hne : ∀ v t, (s'.job.phases v).transfer? = some t → v ≠ w := by
    rintro v t ht rfl
    rw [hnone] at ht
    cases ht
  refine ⟨hwf, fun id stop hid => ?_, fun v id stop hv => ?_,
    fun v t ht hv stop hstop => ?_, fun v t ht hv => ?_, fun v hv => ?_⟩
  · rw [hannounced] at hid
    exact (h.announced id stop hid).steps hsteps
  · rcases hnotices v id stop hv with hv | ⟨lease, hlease, rfl⟩
    · exact (h.notices v id stop hv).steps hsteps
    · refine ⟨hwf.fresh hlease, fun lease' hlease' => ?_⟩
      cases hlease.symm.trans hlease'
      exact le_rfl
  · have hvw := hne v t ht
    rw [hothers v hvw] at ht
    rw [hunread, Function.update_of_ne hvw] at hv
    rw [hannounced] at hstop
    exact h.read v t ht hv stop hstop
  · have hvw := hne v t ht
    rw [hothers v hvw] at ht
    rw [hunread, Function.update_of_ne hvw] at hv
    rw [hsignal]
    exact h.pending v t ht hv
  · rw [hunread]
    rcases eq_or_ne v w with rfl | hvw
    · exact Function.update_self ..
    · rw [Function.update_of_ne hvw]
      rw [hothers v hvw] at hv
      exact h.fresh v hv

/-- What a refresh leaves as the boundary. -/
theorem refreshed_le {job : SegmentedState} {t : Transfer} {stop : ℕ}
    (hend : job.sched.EndsBy t.lease.id stop)
    (hlive : (job.sched.leaseEnd t.lease.id t.lease.generation).isSome = true) :
    (job.refreshed t).effectiveEnd ≤ stop := by
  obtain ⟨live, hlive⟩ := Option.isSome_iff_exists.mp hlive
  have hstop : live ≤ stop := by
    unfold SegmentScheduler.leaseEnd at hlive
    split at hlive
    · cases hlive
    next lease hlease =>
    split_ifs at hlive
    cases hlive
    exact hend.2 lease hlease
  unfold SegmentedState.refreshed
  rw [hlive]
  exact (min_le_right _ _).trans hstop

/-- **The owner reads the new end** before anything goes beyond it. -/
theorem Observed.refresh (h : s.Observed) {job : SegmentedState}
    (hok : (!s.unread w || s.readable w) = true)
    (hs : s.job.workerStep cfg w .refresh = some job) :
    (s.after job (.worker w .refresh)).Observed := by
  obtain ⟨hothers, hsched, hfresh, t, ht, hlease, horigin⟩ := SegmentedState.refresh_cases hs
  have hends : ∀ {id stop}, s.job.sched.EndsBy id stop → job.sched.EndsBy id stop := by
    intro id stop hid
    rwa [hsched]
  refine ⟨?_, fun id stop hid => hends (h.announced id stop hid),
    fun v id stop hv => hends (h.notices v id stop hv), fun v u hu hv stop hstop => ?_,
    fun v u hu hv => ?_, fun v hv => ?_⟩
  · show job.sched.ledger.WellFormed
    rw [hsched]
    exact h.wellFormed
  · rcases eq_or_ne v w with rfl | hne
    · obtain rfl : s.job.refreshed t = u := Option.some.inj (ht.symm.trans hu)
      rw [SegmentedState.refreshed_lease] at hstop
      by_cases hlive : (s.job.sched.leaseEnd t.lease.id t.lease.generation).isSome = true
      · exact refreshed_le (h.announced _ _ hstop) hlive
      · -- the lease is gone, so nothing was unread, and the boundary stands
        have hread : s.unread v = false := by
          rcases Bool.or_eq_true_iff.mp hok with hread | hreadable
          · simpa using hread
          · unfold readable at hreadable
            rw [hlease, Option.all_some] at hreadable
            exact absurd hreadable hlive
        rcases horigin with hopening | ⟨hbody, -⟩
        · rw [h.fresh v (by rw [hopening]; rfl)] at hread
          cases hread
        · exact ((s.job.refreshed_frame t).2.2.2.2).trans (h.read v t hbody hread stop hstop)
    · have hu' : (s.job.phases v).transfer? = some u := by
        rw [← hothers v hne]
        exact hu
      refine h.read v u hu' ?_ stop hstop
      simpa [after, Function.update_of_ne hne] using hv
  · rcases eq_or_ne v w with rfl | hne
    · simp [after] at hv
    · have hu' : (s.job.phases v).transfer? = some u := by
        rw [← hothers v hne]
        exact hu
      have hchanged := h.pending v u hu' (by simpa [after, Function.update_of_ne hne] using hv)
      show Watch.changed (if _ then _ else _) v = true
      split_ifs
      · rwa [Watch.changed_markSeen_of_ne _ hne]
      · exact hchanged
  · rcases eq_or_ne v w with rfl | hne
    · rw [show ((s.after job (.worker v .refresh)).job.phases v).isFresh = false from hfresh] at hv
      cases hv
    · have hv' : (s.job.phases v).isFresh = true := by
        rw [← hothers v hne]
        exact hv
      simpa [after, Function.update_of_ne hne] using h.fresh v hv'

/-- A step of a worker keeps its ends, and those of the others. -/
theorem Observed.worker (h : s.Observed) {e : WorkerEvent} {job : SegmentedState}
    (hok : s.observes cfg (.job (.worker w e)) = true)
    (hs : segmentedStep cfg s.job (.worker w e) = some job) :
    (s.after job (.worker w e)).Observed := by
  have hsteps := segmentedStep_steps hs
  have hw : s.job.workerStep cfg w e = some job := by
    simp only [segmentedStep] at hs
    split_ifs at hs
    exact hs
  cases e with
  | refresh => exact h.refresh hok hw
  | acquire d n =>
    obtain ⟨hothers, hnone⟩ := SegmentedState.acquire_phases hw
    exact h.take hsteps hothers hnone rfl rfl (fun v id stop hv => .inl hv) rfl
  | split leaseId n =>
    obtain ⟨generation, tail, sched, -, rfl⟩ := SegmentedState.split_cases hw
    refine h.take (w := w) hsteps (fun v hv => Function.update_of_ne hv _ _) ?_ rfl rfl
      (fun v id stop hv => ?_) rfl
    · simp [after, SegmentedState.setPhase, Phase.transfer?]
    · rcases eq_or_ne v w with rfl | hne
      · simp only [after, Function.update_self] at hv
        obtain ⟨lease, hlease, heq⟩ := Option.map_eq_some_iff.mp hv
        obtain ⟨rfl, rfl⟩ := Prod.mk.inj heq
        exact .inr ⟨lease, hlease, rfl⟩
      · simp only [after, Function.update_of_ne hne] at hv
        exact .inl hv
  | _ =>
    exact h.keep hsteps (SegmentedState.workerStep_keepsBoundary hw (fun d n hno => by cases hno)
      (fun l n hno => by cases hno) fun hno => by cases hno) rfl rfl rfl rfl

/-- The worker looks at the signal and has nothing unread. -/
theorem Observed.look (h : s.Observed) (hread : s.unread w = false) (points : ℕ → LoopPoint) :
    Observed { s with signal := s.signal.markSeen w, points := points } := by
  refine ⟨h.wellFormed, h.announced, h.notices, h.read, fun v t ht hv => ?_, h.fresh⟩
  have hne : v ≠ w := by
    rintro rfl
    rw [hread] at hv
    cases hv
  show (s.signal.markSeen w).changed v = true
  rw [Watch.changed_markSeen_of_ne _ hne]
  exact h.pending v t ht hv

/-- An announcement is of a split that has happened. -/
theorem Observed.announce (h : s.Observed) (hs : s.step cfg (.announce w) = some s') :
    s'.Observed := by
  obtain ⟨⟨id, stop⟩, hnotice, rfl⟩ := Option.map_eq_some_iff.mp hs
  have hends := h.notices w id stop hnotice
  refine ⟨h.wellFormed, fun id' stop' hid => ?_, fun v id' stop' hv => ?_,
    fun v t ht hv stop' hstop => ?_, fun v t ht hv => ?_, fun v hv => ?_⟩
  · rcases eq_or_ne id' id with rfl | hne
    · simp only [Function.update_self, Option.some.injEq] at hid
      rcases hold : s.announced id' with _ | old <;> rw [hold] at hid <;> cases hid
      · exact hends
      · refine ⟨hends.1, fun lease hlease => le_min (hends.2 lease hlease) ?_⟩
        exact (h.announced id' old hold).2 lease hlease
    · simp only [Function.update_of_ne hne] at hid
      exact h.announced id' stop' hid
  · rcases eq_or_ne v w with rfl | hne
    · simp only [Function.update_self] at hv
      cases hv
    · simp only [Function.update_of_ne hne] at hv
      exact h.notices v id' stop' hv
  · obtain ⟨hread, hother⟩ := Bool.or_eq_false_iff.mp hv
    have hne : t.lease.id ≠ id := by
      intro heq
      have hlease : (s.job.phases v).lease? = some t.lease := by
        cases hphase : s.job.phases v <;> rw [hphase] at ht <;> cases ht <;> rfl
      rw [hlease, Option.any_some, decide_eq_false_iff_not] at hother
      exact hother heq
    simp only [Function.update_of_ne hne] at hstop
    exact h.read v t ht hread stop' hstop
  · exact Watch.changed_send _ v
  · show (s.unread v || _) = true
    rw [h.fresh v hv, Bool.true_or]

/-- **An announced end stays one that its owner will see.** -/
theorem Observed.step (h : s.Observed) {e : NoticeEvent} (hok : s.observes cfg e = true)
    (hs : s.step cfg e = some s') : s'.Observed := by
  cases e with
  | job e =>
    simp only [NoticeState.step] at hs
    split_ifs at hs
    obtain ⟨job, hjob, rfl⟩ := Option.map_eq_some_iff.mp hs
    cases e with
    | worker w e => exact h.worker hok hjob
    | reconcile =>
      refine h.keep (w := 0) (segmentedStep_steps hjob) (.of_phases ?_) rfl rfl rfl rfl
      cases hjob
      rfl
    | cancel =>
      refine h.keep (w := 0) (segmentedStep_steps hjob) (.of_phases ?_) rfl rfl rfl rfl
      cases hjob
      rfl
  | mark w =>
    simp only [NoticeState.step] at hs
    split at hs <;> cases hs
    exact h.look (by simpa [observes] using hok) _
  | await w =>
    simp only [NoticeState.step] at hs
    split_ifs at hs
    cases hs
    exact h.look (by simpa [observes] using hok) s.points
  | reserve w =>
    simp only [NoticeState.step] at hs
    split_ifs at hs
    cases hs
    exact ⟨h.wellFormed, h.announced, h.notices, h.read, h.pending, h.fresh⟩
  | announce w => exact h.announce hs
  | touch =>
    cases hs
    exact ⟨h.wellFormed, h.announced, h.notices, h.read, fun v _ _ _ => Watch.changed_send _ v,
      h.fresh⟩

theorem observed_init (cfg : SegmentedConfig) : (init cfg).Observed :=
  ⟨SegmentScheduler.initialized_wellFormed _ _ _, fun _ _ hid => (by cases hid),
    fun _ _ _ hv => (by cases hv), fun _ _ ht => (by cases ht), fun _ _ ht => (by cases ht),
    fun _ hv => (by cases hv)⟩

/-- What a split takes lies past what the owner has received. -/
theorem received_le_tail {leaseId now : ℕ} (hok : s.leavesReceived cfg leaseId = true)
    {generation threshold v : ℕ} {tail lease : SegmentLease} {sched : SegmentScheduler}
    (hsplit : s.job.sched.splitTail leaseId generation threshold
      (s.job.cellReceivedThrough cfg.workers leaseId) now = some (tail, sched))
    (hv : v < cfg.workers) (hlease : (s.job.phases v).lease? = some lease)
    (hid : lease.id = leaseId) : s.job.reached v ≤ tail.start := by
  have hroom := List.all_eq_true.mp hok v (List.mem_range.mpr hv)
  rw [hlease, Option.any_some, hid, decide_eq_true rfl, Bool.not_true, Bool.false_or] at hroom
  unfold SegmentScheduler.splitTail at hsplit
  split at hsplit
  · cases hsplit
  next l hl =>
  rw [hl, Option.all_some, decide_eq_true_eq] at hroom
  dsimp only at hsplit
  split at hsplit
  · cases hsplit
  split at hsplit
  · cases hsplit
  obtain ⟨rfl, -⟩ := Prod.mk.inj (Option.some.inj hsplit)
  -- at least two bytes are left, so half of them is a proper part
  show s.job.reached v ≤ l.stop - clamp _ 1 _ + 1
  unfold clamp
  split_ifs <;> omega

end NoticeState

open NoticeState in
/-- **Split boundaries are observed.**  In every run whose steps all meet
`observes`: an owner that has not read an announced split of its lease is still
to be notified of it; of a chunk that it receives after the announcement it
hands nothing past the announced end to the writer; and the tail of a split
holds no byte that the owner had received. -/
theorem split_boundary_observed (cfg : SegmentedConfig) {s : NoticeState}
    (h : Reach (NoticeState.step cfg) (fun s e => s.observes cfg e = true)
      (· = NoticeState.init cfg) s) :
    (∀ w t, (s.job.phases w).transfer? = some t → s.unread w = true →
      s.signal.changed w = true) ∧
    (∀ w len s', s.observes cfg (.job (.worker w (.receive len))) = true →
      s.step cfg (.job (.worker w (.receive len))) = some s' →
      ∀ t, (s.job.phases w).transfer? = some t → ∀ stop, s.announced t.lease.id = some stop →
        t.ownedLen len = 0 ∨ t.absOffset + t.ownedLen len ≤ stop + 1) ∧
    ∀ w leaseId now s', s.observes cfg (.job (.worker w (.split leaseId now))) = true →
      s.step cfg (.job (.worker w (.split leaseId now))) = some s' →
      ∃ tail, s'.job.phases w = .holding tail ∧ ∀ v < cfg.workers, ∀ lease,
        (s.job.phases v).lease? = some lease → lease.id = leaseId →
        s.job.reached v ≤ tail.start := by
  have hobserved : s.Observed := by
    refine Reach.invariant (I := Observed) (fun q hq => ?_) (fun q e q' hq hok hs => hq.step hok hs) h
    rw [hq]
    exact observed_init cfg
  refine ⟨hobserved.pending, fun w len s' hok _ t ht stop hstop => ?_,
    fun w leaseId now s' hok hs => ?_⟩
  · have hend := hobserved.read w t ht (by simpa [observes] using hok) stop hstop
    unfold Transfer.ownedLen
    split_ifs
    · exact .inl rfl
    · exact .inr (by omega)
  · simp only [NoticeState.step] at hs
    split_ifs at hs
    obtain ⟨job, hjob, rfl⟩ := Option.map_eq_some_iff.mp hs
    simp only [segmentedStep] at hjob
    split_ifs at hjob
    obtain ⟨generation, tail, sched, hsplit, rfl⟩ := SegmentedState.split_cases hjob
    refine ⟨tail, Function.update_self .., fun v hv lease hlease hid => ?_⟩
    exact received_le_tail hok hsplit hv hlease hid

/-! ### A split that is seen and one that is missed -/

/-- A job of a million bytes with two workers on the lane path. -/
def twoLanes : SegmentedConfig := { pipelinedJob with pipelined := false }

/-- One worker takes the file, reads its boundary and waits for a chunk. -/
def opened : List NoticeEvent :=
  [.job (.worker 0 (.acquire 0 0)),
    .job (.worker 0 (.respond 206 [("content-range", "bytes 0-999999/1000000")])),
    .job (.worker 0 .refresh), .mark 0]

/-- The other worker splits the lease and announces it. -/
def splitAndAnnounced : List NoticeEvent := [.job (.worker 1 (.split 1 0)), .announce 1]

/-- A first chunk is written, and the split comes while the owner waits for the
next one. -/
def seenSplit : List NoticeEvent :=
  opened ++ [NoticeEvent.job (.worker 0 (.receive 1000)), .job (.worker 0 (.writeAck none)), .mark 0] ++
    splitAndAnnounced ++ [NoticeEvent.job (.worker 0 .refresh), .mark 0]

/-- The split comes while the first chunk is written. -/
def missedSplit : List NoticeEvent :=
  opened ++ [NoticeEvent.job (.worker 0 (.receive 1000))] ++ splitAndAnnounced ++
    [NoticeEvent.job (.worker 0 (.writeAck none)), .mark 0]

/-- The worker sees the split and stops at the new boundary. -/
theorem split_boundary_observed_seen :
    ∃ s t, runEvents (NoticeState.step twoLanes) (.init twoLanes) seenSplit = some s ∧
      (s.job.phases 0).transfer? = some t ∧ s.announced t.lease.id = some 500499 ∧
      t.absOffset = 1000 ∧
      (t.ownedLen 600000 = 0 ∨ t.absOffset + t.ownedLen 600000 ≤ 500500) := by
  obtain ⟨s, hrun, hbody, hok, hstep⟩ : ∃ s ∈ runEvents (NoticeState.step twoLanes)
      (.init twoLanes) seenSplit,
      ((s.job.phases 0).transfer?.any fun t =>
        s.announced t.lease.id = some 500499 && t.absOffset = 1000) = true ∧
      s.observes twoLanes (.job (.worker 0 (.receive 600000))) = true ∧
      (s.step twoLanes (.job (.worker 0 (.receive 600000)))).isSome = true := by
    decide +kernel
  have hrunOk : runOk (NoticeState.step twoLanes) (fun s e => s.observes twoLanes e = true)
      (.init twoLanes) seenSplit := by
    decide +kernel
  obtain ⟨t, ht, hbody⟩ := (Option.any_eq_true _ _).mp hbody
  obtain ⟨hannounced, hoffset⟩ := Bool.and_eq_true_iff.mp hbody
  obtain ⟨s', hs'⟩ := Option.isSome_iff_exists.mp hstep
  exact ⟨s, t, hrun, ht, of_decide_eq_true hannounced, of_decide_eq_true hoffset,
    (split_boundary_observed twoLanes (.of_run (.start rfl) hrunOk hrun)).2.1 0 600000 s' hok hs'
      t ht 500499 (of_decide_eq_true hannounced)⟩

/-- The mark after the write takes the notification of a split at 500000, and of
the next chunk the owner hands the bytes up to 601000 to the writer; and a split
while 600000 bytes are on their way to the disk hands out those from 500000
on. -/
theorem split_boundary_missed :
    (∃ s s' t, Reach (NoticeState.step twoLanes) (fun _ _ => True) (· = .init twoLanes) s ∧
      (s.job.phases 0).transfer? = some t ∧ s.announced t.lease.id = some 499999 ∧
      s.signal.changed 0 = false ∧
      s.step twoLanes (.job (.worker 0 (.receive 600000))) = some s' ∧
      t.absOffset + t.ownedLen 600000 = 601000) ∧
    ∃ s s' owned tail, Reach (NoticeState.step twoLanes) (fun _ _ => True)
        (· = .init twoLanes) s ∧
      (s.job.phases 0).lease? = some owned ∧
      s.step twoLanes (.job (.worker 1 (.split owned.id 0))) = some s' ∧
      (s'.job.phases 1).lease? = some tail ∧ tail.start = 500000 ∧ s.job.reached 0 = 600000 := by
  constructor
  · obtain ⟨s, hrun, hbody, hchanged, hstep⟩ : ∃ s ∈ runEvents (NoticeState.step twoLanes)
        (.init twoLanes) missedSplit,
        ((s.job.phases 0).transfer?.any fun t => s.announced t.lease.id = some 499999 &&
          t.absOffset + t.ownedLen 600000 = 601000) = true ∧
        s.signal.changed 0 = false ∧
        (s.step twoLanes (.job (.worker 0 (.receive 600000)))).isSome = true := by
      decide +kernel
    obtain ⟨t, ht, hbody⟩ := (Option.any_eq_true _ _).mp hbody
    obtain ⟨hannounced, howned⟩ := Bool.and_eq_true_iff.mp hbody
    obtain ⟨s', hs'⟩ := Option.isSome_iff_exists.mp hstep
    exact ⟨s, s', t, .of_run (.start rfl) runOk_true hrun, ht, of_decide_eq_true hannounced,
      hchanged, hs', of_decide_eq_true howned⟩
  · obtain ⟨s, hrun, hsplit⟩ : ∃ s ∈ runEvents (NoticeState.step twoLanes) (.init twoLanes)
        (opened ++ [.job (.worker 0 (.receive 600000))]),
        ((s.job.phases 0).lease?.any fun owned => s.job.reached 0 = 600000 &&
          (s.step twoLanes (.job (.worker 1 (.split owned.id 0)))).any fun s' =>
            (s'.job.phases 1).lease?.any fun tail => tail.start = 500000) = true := by
      decide +kernel
    obtain ⟨owned, howned, hsplit⟩ := (Option.any_eq_true _ _).mp hsplit
    obtain ⟨hreached, hsplit⟩ := Bool.and_eq_true_iff.mp hsplit
    obtain ⟨s', hs', htail⟩ := (Option.any_eq_true _ _).mp hsplit
    obtain ⟨tail, htail, hstart⟩ := (Option.any_eq_true _ _).mp htail
    exact ⟨s, s', owned, tail, .of_run (.start rfl) runOk_true hrun, howned, hs', htail,
      of_decide_eq_true hstart, of_decide_eq_true hreached⟩

end KDown
