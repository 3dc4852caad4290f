/-
KDown/SegmentedPipeline.lean

When a pipelined body ends in success (job/segmented.rs).

A pipelined body submits its writes without waiting and settles the lease only
when all of them are answered: then the acknowledged frontier has to stand one
past the stop boundary.  The bytes a worker has taken so far end at its offset,
and with nothing outstanding all of them are acknowledged, so the frontier
stands at the offset (`PipeOk.acknowledgedThrough_eq`).  The boundary is
another matter: a split is cut against the published watermark, which lags
behind the offset, and a refresh then moves the boundary below bytes that are
already taken (`split_below_submitted`).  `drained_body_closes` is the result
for the runs in which no refresh does that.
-/
import KDown.Segmented

namespace KDown

/-- An accepted ranged response is not empty. -/
theorem transfer_range_le {ri : RangeIntent} {status : ℕ} {headers : Headers}
    {response : TransferResponse} (h : transfer (.range ri) status headers = .ok response) :
    response.start ≤ response.stop := by
  unfold transfer at h
  simp only at h
  split_ifs at h
  cases e : validateRangeResponse ri.range (.fromHead status headers) ri.establishedTotal
      ri.expectedValidators with
  | error rejection =>
    rw [e] at h
    cases h
  | ok v =>
    rw [e] at h
    cases h
    rcases validateRangeResponse_eq_ok e with ⟨-, -, rfl⟩ | ⟨-, cr, hcr, hs, -, -, -, rfl⟩
    · exact Nat.zero_le _
    · rw [← hs]
      exact ResponseMetadata.contentRange_le hcr

namespace SegmentedState

variable {cfg : SegmentedConfig} {safe : Prop} {s s' : SegmentedState} {w : ℕ}

/-! ### The bytes of a pipelined body -/

/-- The writes of a worker that are queued or answered. -/
def submissions (s : SegmentedState) (w : ℕ) : List WriteSubmission :=
  s.queued w ++ (s.completions w).map WriteCompletion.submission

/-- No write of the lease was handed over yet. -/
def Unsubmitted (s : SegmentedState) (w : ℕ) (lease : SegmentLease) : Prop :=
  lease.id < s.sched.nextLease ∧ ∀ sub ∈ s.submissions w, sub.leaseId ≠ lease.id

/-- The bytes between the start of the body and the offset are acknowledged or
outstanding, and no others are.  If refreshes are safe, the boundary is at or
past the last byte taken. -/
structure PipeOk (safe : Prop) (s : SegmentedState) (w : ℕ) (t : Transfer) (f : LeaseFrontier) :
    Prop where
  inUse : t.lease.id < s.sched.nextLease
  leaseId : f.leaseId = t.lease.id
  start : f.start = t.validatedStart
  stop : f.stop = t.validatedEnd
  within : t.absOffset ≤ t.validatedEnd + 1
  boundary : t.effectiveEnd ≤ t.validatedEnd
  reached : safe → t.absOffset ≤ t.effectiveEnd + 1
  highWater : f.receivedHighWater = t.absOffset
  cover : ∀ b, t.validatedStart ≤ b → b < t.absOffset → b ∈ f.acknowledged ∨ b ∈ f.outstanding
  acknowledged : ∀ b ∈ f.acknowledged, b < t.absOffset
  submitted : ∀ sub ∈ s.submissions w, sub.leaseId = t.lease.id → sub.offset + sub.len ≤ t.absOffset

/-- **With nothing outstanding the frontier stands at the offset.** -/
theorem PipeOk.acknowledgedThrough_eq {t : Transfer} {f : LeaseFrontier} (h : PipeOk safe s w t f)
    (hout : f.hasOutstanding = false) : f.acknowledgedThrough = t.absOffset := by
  have hempty : ∀ b, b ∉ f.outstanding := by
    apply IntervalSet.isEmpty_iff.mp
    simpa [LeaseFrontier.hasOutstanding] using hout
  have hstop : t.absOffset ≤ f.stop + 1 := by
    rw [h.stop]
    exact h.within
  apply le_antisymm
  · refine LeaseFrontier.acknowledgedThrough_le ?_ hstop h.acknowledged
    rw [h.start]
    exact Nat.le_add_right _ _
  · refine LeaseFrontier.le_acknowledgedThrough hstop fun b hb hlt => ?_
    rw [h.start] at hb
    exact (h.cover b hb hlt).resolve_right (hempty b)

/-- What holds of a worker in each phase. -/
def PhasePipe (safe : Prop) (s : SegmentedState) (w : ℕ) : Phase → Prop
  | .holding lease => s.Unsubmitted w lease
  | .opening t =>
      s.Unsubmitted w t.lease ∧ t.inRangeOffset = 0 ∧ t.validatedStart ≤ t.validatedEnd ∧
        t.effectiveEnd = t.validatedEnd
  | .pipelining t f => PipeOk safe s w t f
  | .draining t f _ => PipeOk safe s w t f
  | _ => True

/-- The pipelined bodies of all workers. -/
structure Piped (safe : Prop) (s : SegmentedState) : Prop where
  known : ∀ w, ∀ sub ∈ s.submissions w, sub.leaseId < s.sched.nextLease ∧ 0 < sub.len
  phases : ∀ w, PhasePipe safe s w (s.phases w)

/-- A refresh finds the live end of the lease at or past the last byte taken. -/
def safeRefresh (s : SegmentedState) : SegmentedEvent → Bool
  | .worker w .refresh =>
      match s.phases w with
      | .opening t | .pipelining t _ =>
          (s.sched.leaseEnd t.lease.id t.lease.generation).all fun stop => t.absOffset ≤ stop + 1
      | _ => true
  | _ => true

/-! ### What a step leaves alone -/

/-- Fewer writes and more leases. -/
theorem PhasePipe.mono {p : Phase} (h : PhasePipe safe s w p)
    (hnext : s.sched.nextLease ≤ s'.sched.nextLease)
    (hsub : ∀ sub ∈ s'.submissions w, sub ∈ s.submissions w) : PhasePipe safe s' w p := by
  have hfree : ∀ {lease : SegmentLease}, s.Unsubmitted w lease → s'.Unsubmitted w lease :=
    fun hu => ⟨hu.1.trans_le hnext, fun sub hs => hu.2 sub (hsub sub hs)⟩
  have hpipe : ∀ {t : Transfer} {f : LeaseFrontier}, PipeOk safe s w t f → PipeOk safe s' w t f :=
    fun ho => { ho with
      inUse := ho.inUse.trans_le hnext
      submitted := fun sub hs => ho.submitted sub (hsub sub hs) }
  cases p with
  | holding lease => exact hfree h
  | opening t => exact ⟨hfree h.1, h.2⟩
  | pipelining t f => exact hpipe h
  | draining t f retry => exact hpipe h
  | _ => trivial

/-- One worker moves; the others keep their phase and their writes. -/
theorem Piped.update (h : Piped safe s) (hnext : s.sched.nextLease ≤ s'.sched.nextLease)
    (hothers : ∀ v, v ≠ w → s'.phases v = s.phases v ∧ s'.submissions v = s.submissions v)
    (hknown : ∀ sub ∈ s'.submissions w, sub.leaseId < s'.sched.nextLease ∧ 0 < sub.len)
    (hphase : PhasePipe safe s' w (s'.phases w)) : Piped safe s' where
  known := by
    intro v sub hsub
    by_cases hv : v = w
    · subst hv
      exact hknown sub hsub
    · rw [(hothers v hv).2] at hsub
      exact ⟨(h.known v sub hsub).1.trans_le hnext, (h.known v sub hsub).2⟩
  phases := by
    intro v
    by_cases hv : v = w
    · subst hv
      exact hphase
    · rw [(hothers v hv).1]
      refine (h.phases v).mono hnext fun sub hsub => ?_
      rw [(hothers v hv).2] at hsub
      exact hsub

/-- A worker goes to another phase and touches none of its writes. -/
theorem Piped.setPhase (h : Piped safe s) {p : Phase} (hp : PhasePipe safe s w p) :
    Piped safe (s.setPhase w p) := by
  refine h.update (w := w) le_rfl (fun v hv => ⟨Function.update_of_ne hv _ _, rfl⟩)
    (h.known w) ?_
  show PhasePipe safe (s.setPhase w p) w (Function.update s.phases w p w)
  rw [Function.update_self]
  exact hp.mono le_rfl fun _ hsub => hsub

/-- Scheduler and flags change; phases and writes do not. -/
theorem Piped.frame (h : Piped safe s) (hnext : s.sched.nextLease ≤ s'.sched.nextLease)
    (hphases : s'.phases = s.phases) (hsub : ∀ v, s'.submissions v = s.submissions v) : Piped safe s' := by
  refine h.update (w := 0) hnext (fun v _ => ⟨by rw [hphases], hsub v⟩) (fun sub hs => ?_) ?_
  · rw [hsub] at hs
    exact ⟨(h.known 0 sub hs).1.trans_le hnext, (h.known 0 sub hs).2⟩
  · rw [hphases]
    refine (h.phases 0).mono hnext fun sub hs => ?_
    rw [hsub] at hs
    exact hs

/-! ### The steps of a pipelined body -/

/-- The frontier of a body that was just opened. -/
theorem pipeOk_new {t : Transfer} (hfree : s.Unsubmitted w t.lease) (hzero : t.inRangeOffset = 0)
    (hord : t.validatedStart ≤ t.validatedEnd) (hend : t.effectiveEnd = t.validatedEnd) :
    PipeOk safe s w t (.new t.lease.id t.lease.generation t.validatedStart t.validatedEnd) := by
  have habs : t.absOffset = t.validatedStart := by
    rw [Transfer.absOffset, hzero, Nat.add_zero]
  have hreach : t.absOffset ≤ t.validatedEnd + 1 := by
    rw [habs]
    exact hord.trans (Nat.le_succ _)
  refine ⟨hfree.1, rfl, rfl, rfl, hreach, hend.le, ?_, habs.symm, ?_, ?_, ?_⟩
  · intro _
    rw [hend]
    exact hreach
  · intro b hb hlt
    rw [habs] at hlt
    exact absurd hb (not_le.mpr hlt)
  · intro b hb
    exact absurd hb (IntervalSet.not_mem_new b)
  · intro sub hsub hid
    exact absurd hid (hfree.2 sub hsub)

theorem refreshed_frame (t : Transfer) :
    (s.refreshed t).lease = t.lease ∧ (s.refreshed t).validatedStart = t.validatedStart ∧
      (s.refreshed t).validatedEnd = t.validatedEnd ∧
      (s.refreshed t).inRangeOffset = t.inRangeOffset ∧
      (s.refreshed t).effectiveEnd ≤ t.effectiveEnd := by
  rw [refreshed]
  split
  · exact ⟨rfl, rfl, rfl, rfl, min_le_left _ _⟩
  · exact ⟨rfl, rfl, rfl, rfl, le_rfl⟩

/-- The boundary moves down and nothing else changes. -/
theorem PipeOk.of_boundary {t t' : Transfer} {f : LeaseFrontier} (h : PipeOk safe s w t f)
    (hlease : t'.lease = t.lease) (hstart : t'.validatedStart = t.validatedStart)
    (hstop : t'.validatedEnd = t.validatedEnd) (hoff : t'.inRangeOffset = t.inRangeOffset)
    (hend : t'.effectiveEnd ≤ t.effectiveEnd)
    (hreached : safe → t.absOffset ≤ t'.effectiveEnd + 1) : PipeOk safe s w t' f := by
  have habs : t'.absOffset = t.absOffset := by
    rw [Transfer.absOffset, Transfer.absOffset, hstart, hoff]
  constructor
  · rw [hlease]
    exact h.inUse
  · rw [hlease]
    exact h.leaseId
  · rw [hstart]
    exact h.start
  · rw [hstop]
    exact h.stop
  · rw [habs, hstop]
    exact h.within
  · rw [hstop]
    exact hend.trans h.boundary
  · rw [habs]
    exact hreached
  · rw [habs]
    exact h.highWater
  · rw [habs, hstart]
    exact h.cover
  · rw [habs]
    exact h.acknowledged
  · rw [habs, hlease]
    exact h.submitted

theorem ownedLen_le {t : Transfer} {len : ℕ} (h : t.ownedLen len ≠ 0) :
    t.absOffset + t.ownedLen len ≤ t.effectiveEnd + 1 := by
  rw [Transfer.ownedLen] at h ⊢
  split_ifs at h ⊢ with hlt
  · exact absurd rfl h
  · omega

/-- A chunk is taken: received, submitted and queued. -/
theorem PipeOk.take {t t' : Transfer} {f : LeaseFrontier} {owned : ℕ} (h : PipeOk safe s w t f)
    (hend : t.absOffset + owned ≤ t.effectiveEnd + 1)
    (hlease : t'.lease = t.lease) (hstart : t'.validatedStart = t.validatedStart)
    (hstop : t'.validatedEnd = t.validatedEnd) (heff : t'.effectiveEnd = t.effectiveEnd)
    (hoff : t'.inRangeOffset = t.inRangeOffset + owned) (hnext : s'.sched = s.sched)
    (hsub : ∀ sub ∈ s'.submissions w, sub ∈ s.submissions w ∨
      sub = ⟨t.lease.id, t.lease.generation, t.absOffset, owned⟩) :
    PipeOk safe s' w t' ((f.recordReceived t.absOffset owned).recordSubmission t.absOffset owned) := by
  have habs : t'.absOffset = t.absOffset + owned := by
    rw [Transfer.absOffset, Transfer.absOffset, hstart, hoff, Nat.add_assoc]
  constructor
  · rw [hlease, hnext]
    exact h.inUse
  · rw [hlease]
    exact h.leaseId
  · rw [hstart]
    exact h.start
  · rw [hstop]
    exact h.stop
  · rw [habs, hstop]
    exact hend.trans (Nat.succ_le_succ h.boundary)
  · rw [heff, hstop]
    exact h.boundary
  · rw [habs, heff]
    exact fun _ => hend
  · show max f.receivedHighWater (t.absOffset + owned) = t'.absOffset
    rw [h.highWater, habs]
    exact max_eq_right (Nat.le_add_right _ _)
  · intro b hb hlt
    rw [hstart] at hb
    show b ∈ f.acknowledged ∨ b ∈ f.outstanding.insert t.absOffset (t.absOffset + owned - 1)
    rw [IntervalSet.mem_insert]
    -- before the chunk, or inside it
    by_cases hold : b < t.absOffset
    · cases h.cover b hb hold with
      | inl ha => exact .inl ha
      | inr ho => exact .inr (.inl ho)
    · exact .inr (.inr ⟨not_lt.mp hold, by omega⟩)
  · intro b hb
    have := h.acknowledged b hb
    omega
  · intro sub hs hid
    cases hsub sub hs with
    | inl hold =>
      have := h.submitted sub hold (hid.trans (by rw [hlease]))
      omega
    | inr hnew =>
      rw [hnew, habs]

/-- A completion that does not fail. -/
theorem PipeOk.recordCompletion {t : Transfer} {f : LeaseFrontier} (h : PipeOk safe s w t f)
    {sub : WriteSubmission} {success : Bool} (hpos : 0 < sub.len)
    (hrange : sub.leaseId = t.lease.id → sub.offset + sub.len ≤ t.absOffset)
    (hok : (f.recordCompletion sub.leaseId sub.generation sub.offset sub.len success).1 ≠ .failed) :
    PipeOk safe s w t (f.recordCompletion sub.leaseId sub.generation sub.offset sub.len success).2 := by
  unfold LeaseFrontier.recordCompletion at hok ⊢
  by_cases hstale : sub.leaseId ≠ f.leaseId ∨ sub.generation ≠ f.generation
  · rw [if_pos hstale]
    exact h
  rw [if_neg hstale] at hok ⊢
  rw [not_or, not_not, not_not] at hstale
  have hend := hrange (hstale.1.trans h.leaseId)
  cases success with
  | false => exact absurd rfl hok
  | true =>
    refine { h with cover := ?_, acknowledged := ?_ }
    · intro b hb hlt
      show b ∈ f.acknowledged.insert sub.offset (sub.offset + sub.len - 1) ∨
        b ∈ f.outstanding.subtract sub.offset (sub.offset + sub.len - 1)
      rw [IntervalSet.mem_insert, IntervalSet.mem_subtract]
      by_cases hin : sub.offset ≤ b ∧ b ≤ sub.offset + sub.len - 1
      · exact .inl (.inr hin)
      · cases h.cover b hb hlt with
        | inl ha => exact .inl (.inl ha)
        | inr ho => exact .inr ⟨ho, hin⟩
    · intro b hb
      cases IntervalSet.mem_insert.mp hb with
      | inl ha => exact h.acknowledged b ha
      | inr hin => omega

theorem Piped.respond (h : Piped safe s) {lease : SegmentLease} (hw : s.phases w = .holding lease)
    (status : ℕ) (headers : Headers) : Piped safe (s.respond cfg w lease status headers) := by
  have hfree : s.Unsubmitted w lease := by
    have hp := h.phases w
    rw [hw] at hp
    exact hp
  unfold SegmentedState.respond
  simp only
  cases e : transfer (.range ⟨(s.startFrom w lease, lease.stop), some cfg.totalSize,
      some cfg.validators, .invalidRange⟩) status headers with
  | error err => exact h.setPhase trivial
  | ok response => exact h.setPhase ⟨hfree, rfl, transfer_range_le e, rfl⟩

/-- The boundary after a safe refresh. -/
theorem refreshed_reached {t : Transfer} (h : t.absOffset ≤ t.effectiveEnd + 1)
    (hsafe : (s.sched.leaseEnd t.lease.id t.lease.generation).all
      (fun stop => t.absOffset ≤ stop + 1) = true) :
    t.absOffset ≤ (s.refreshed t).effectiveEnd + 1 := by
  rw [refreshed]
  cases e : s.sched.leaseEnd t.lease.id t.lease.generation with
  | none => exact h
  | some stop =>
    rw [e] at hsafe
    have hstop : t.absOffset ≤ stop + 1 := by simpa using hsafe
    show t.absOffset ≤ min t.effectiveEnd stop + 1
    omega

/-- A new end leaves the pipeline as it is, unless something above it is in
flight. -/
theorem Piped.refresh (h : Piped safe s) (hok : safe → s.safeRefresh (.worker w .refresh) = true)
    (hs : s.workerStep cfg w .refresh = some s') : Piped safe s' := by
  have hp := h.phases w
  simp only [workerStep] at hs
  cases ep : s.phases w with
  | opening t =>
    rw [ep] at hs hp
    rw [← Option.some.inj hs]
    obtain ⟨hfree, hzero, hord, hend⟩ := hp
    obtain ⟨hlease, hstart, hstop, hoff, hle⟩ := s.refreshed_frame t
    cases cfg.pipelined with
    | false => exact h.setPhase trivial
    | true =>
      have hnew : PipeOk safe s w t _ := pipeOk_new hfree hzero hord hend
      refine h.setPhase (p := .pipelining (s.refreshed t) _)
        (hnew.of_boundary hlease hstart hstop hoff hle fun hsafe => ?_)
      refine refreshed_reached (hnew.reached hsafe) ?_
      have hrefresh := hok hsafe
      simp only [safeRefresh, ep] at hrefresh
      exact hrefresh
  | reading t =>
    rw [ep] at hs
    rw [← Option.some.inj hs]
    exact h.setPhase trivial
  | pipelining t f =>
    rw [ep] at hs hp
    rw [← Option.some.inj hs]
    obtain ⟨hlease, hstart, hstop, hoff, hle⟩ := s.refreshed_frame t
    refine h.setPhase (p := .pipelining (s.refreshed t) f)
      (PipeOk.of_boundary hp hlease hstart hstop hoff hle fun hsafe => ?_)
    refine refreshed_reached (hp.reached hsafe) ?_
    have hrefresh := hok hsafe
    simp only [safeRefresh, ep] at hrefresh
    exact hrefresh
  | _ =>
    rw [ep] at hs
    cases hs

/-- A body that fails is drained. -/
theorem Piped.bodyFault (h : Piped safe s) {e : DownloadError} (hs : s.bodyFault cfg w e = some s') :
    Piped safe s' := by
  have hp := h.phases w
  unfold SegmentedState.bodyFault at hs
  cases ep : s.phases w with
  | reading t =>
    rw [ep] at hs
    rw [← Option.some.inj hs]
    exact h.setPhase trivial
  | pipelining t f =>
    rw [ep] at hs hp
    simp only at hs
    split at hs
    · rw [← Option.some.inj hs]
      exact h.setPhase (p := .draining t f _) hp
    · rw [← Option.some.inj hs]
      exact h.setPhase trivial
  | _ =>
    rw [ep] at hs
    cases hs

/-- A write is handed over. -/
def submit (s : SegmentedState) (w : ℕ) (sub : WriteSubmission) : SegmentedState :=
  { s with queued := Function.update s.queued w (s.queued w ++ [sub]) }

theorem mem_submissions_submit {sub new : WriteSubmission}
    (h : sub ∈ (s.submit w new).submissions w) : sub ∈ s.submissions w ∨ sub = new := by
  simp only [submissions, submit, Function.update_self, List.mem_append, List.mem_singleton] at h ⊢
  tauto

theorem Piped.submit (h : Piped safe s) {new : WriteSubmission}
    (hid : new.leaseId < s.sched.nextLease) (hpos : 0 < new.len) {p : Phase}
    (hp : PhasePipe safe (s.submit w new) w p) : Piped safe ((s.submit w new).setPhase w p) := by
  refine h.update (w := w) le_rfl (fun v hv => ⟨Function.update_of_ne hv _ _, ?_⟩) ?_ ?_
  · show Function.update s.queued w _ v ++ _ = _
    rw [Function.update_of_ne hv]
    rfl
  · intro sub hsub
    cases mem_submissions_submit (s := s) hsub with
    | inl hold => exact h.known w sub hold
    | inr hnew =>
      rw [hnew]
      exact ⟨hid, hpos⟩
  · show PhasePipe safe ((s.submit w new).setPhase w p) w (Function.update s.phases w p w)
    rw [Function.update_self]
    exact hp.mono le_rfl fun _ hsub => hsub

/-- A chunk is submitted behind the earlier ones. -/
theorem Piped.receive (h : Piped safe s) {len : ℕ} (hs : s.receive cfg w len = some s') :
    Piped safe s' := by
  have hp := h.phases w
  unfold SegmentedState.receive at hs
  cases ep : s.phases w with
  | reading t =>
    rw [ep] at hs
    simp only at hs
    split_ifs at hs
    · exact h.bodyFault hs
    · rw [← Option.some.inj hs]
      exact h.setPhase trivial
    · rw [← Option.some.inj hs]
      exact h.setPhase trivial
  | pipelining t f =>
    rw [ep] at hs hp
    simp only at hs
    split_ifs at hs with hlimit hzero
    · exact h.bodyFault hs
    · rw [← Option.some.inj hs]
      exact h.setPhase (p := .draining _ f none) 
        (PipeOk.of_boundary hp rfl rfl rfl rfl le_rfl hp.reached)
    all_goals
      -- the chunk is taken; it was cut at the boundary or not
      rw [← Option.some.inj hs]
      refine Piped.submit (s := s) h hp.inUse (Nat.pos_of_ne_zero hzero) ?_
      exact PipeOk.take hp (ownedLen_le hzero) rfl rfl rfl rfl rfl rfl
        fun sub hsub => mem_submissions_submit hsub
  | _ =>
    rw [ep] at hs
    cases hs

/-- A write that is carried out waits for its completion. -/
theorem Piped.execute (h : Piped safe s) {index : ℕ} {outcome : WriteOutcome}
    (hs : s.execute w index outcome = some s') : Piped safe s' := by
  unfold SegmentedState.execute at hs
  cases e : (s.queued w)[index]? with
  | none =>
    rw [e] at hs
    cases hs
  | some sub =>
    rw [e] at hs
    rw [← Option.some.inj hs]
    have hmem : sub ∈ s.queued w := List.mem_of_getElem? e
    -- the write changes sides
    have hsub : ∀ x, x ∈ (s.queued w).eraseIdx index ++
        ((s.completions w) ++ [WriteCompletion.mk sub outcome]).map WriteCompletion.submission →
        x ∈ s.submissions w := by
      intro x hx
      rw [List.map_append, List.mem_append, List.mem_append] at hx
      rw [submissions, List.mem_append]
      obtain hq | hc | hnew := hx
      · exact .inl (List.mem_of_mem_eraseIdx hq)
      · exact .inr hc
      · rw [List.mem_singleton.mp hnew]
        exact .inl hmem
    refine h.update (w := w) le_rfl (fun v hv => And.intro rfl ?_) ?_ ?_
    · simp only [submissions, Function.update_of_ne hv]
    · intro x hx
      simp only [submissions, Function.update_self] at hx
      exact h.known w x (hsub x hx)
    · refine (h.phases w).mono le_rfl fun x hx => ?_
      simp only [submissions, Function.update_self] at hx
      exact hsub x hx

/-- A completion moves the frontier on. -/
theorem Piped.settleCompletion (h : Piped safe s) {t : Transfer} {f : LeaseFrontier}
    {back : LeaseFrontier → Phase} (hp : PipeOk safe s w t f)
    (hback : ∀ {s₁ : SegmentedState} {f'}, PipeOk safe s₁ w t f' → PhasePipe safe s₁ w (back f'))
    (hs : s.settleCompletion w t f back = some s') : Piped safe s' := by
  unfold SegmentedState.settleCompletion at hs
  cases e : s.completions w with
  | nil =>
    rw [e] at hs
    cases hs
  | cons c rest =>
    rw [e] at hs
    have hmem : c.submission ∈ s.submissions w := by
      rw [submissions, List.mem_append, e]
      exact .inr List.mem_cons_self
    have hsub : ∀ x, x ∈ s.queued w ++ rest.map WriteCompletion.submission → x ∈ s.submissions w := by
      intro x hx
      rw [submissions, List.mem_append, e]
      rw [List.mem_append] at hx
      exact hx.imp_right (List.mem_cons_of_mem _)
    -- any phase that holds after the completion was taken from its list
    have hnext : ∀ {cells : ℕ → Option LeaseRecord} {p : Phase},
        (∀ s₁ : SegmentedState, s₁.sched = s.sched → (∀ x ∈ s₁.submissions w, x ∈ s.submissions w) →
          PhasePipe safe s₁ w p) →
        Piped safe ({ s with
          completions := Function.update s.completions w rest, cells := cells }.setPhase w p) := by
      intro cells p hphase
      have hrest : ∀ {x : WriteSubmission}, x ∈ s.queued w ++
          (Function.update s.completions w rest w).map WriteCompletion.submission →
          x ∈ s.queued w ++ rest.map WriteCompletion.submission := by
        intro x hx
        rw [Function.update_self] at hx
        exact hx
      refine h.update (w := w) le_rfl (fun v hv => ⟨Function.update_of_ne hv _ _, ?_⟩) ?_ ?_
      · show s.queued v ++ (Function.update s.completions w rest v).map _ = _
        rw [Function.update_of_ne hv]
        rfl
      · intro x hx
        exact h.known w x (hsub x (hrest hx))
      · simp only [SegmentedState.setPhase, Function.update_self]
        exact hphase _ rfl fun x hx => hsub x (hrest hx)
    have hpipe : (f.recordCompletion c.submission.leaseId c.submission.generation
        c.submission.offset c.submission.len c.outcome.isCompleted).1 ≠ .failed →
        ∀ s₁ : SegmentedState, s₁.sched = s.sched →
          (∀ x ∈ s₁.submissions w, x ∈ s.submissions w) →
          PhasePipe safe s₁ w (back (f.recordCompletion c.submission.leaseId c.submission.generation
            c.submission.offset c.submission.len c.outcome.isCompleted).2) := by
      intro hok s₁ hsched hless
      have hdone := hp.recordCompletion (h.known w _ hmem).2 (hp.submitted _ hmem) hok
      exact hback { hdone with
        inUse := by rw [hsched]; exact hdone.inUse
        submitted := fun x hx => hdone.submitted x (hless x hx) }
    simp only at hs
    split at hs
    · next hr =>
      rw [← Option.some.inj hs]
      exact hnext (hpipe (by rw [hr]; exact fun hno => by cases hno))
    · rw [← Option.some.inj hs]
      exact hnext fun _ _ _ => trivial
    · next hr =>
      rw [← Option.some.inj hs]
      exact hnext (hpipe (by rw [hr]; exact fun hno => by cases hno))

/-- **A body drains until nothing is in flight.** -/
theorem Piped.drained (h : Piped safe s) {t : Transfer} {f : LeaseFrontier}
    {retry : Option DownloadError} (hs : s.drained w t f retry = some s') : Piped safe s' := by
  unfold SegmentedState.drained at hs
  by_cases hout : f.hasOutstanding = true
  · rw [if_pos hout] at hs
    cases hs
  rw [if_neg hout] at hs
  cases retry with
  | some e =>
    rw [← Option.some.inj hs]
    exact h.setPhase trivial
  | none =>
    simp only at hs
    split_ifs at hs
    · rw [← Option.some.inj hs]
      exact h.setPhase trivial
    · rw [← Option.some.inj hs]
      exact h.setPhase trivial

theorem performSettle_writes (lease : SegmentLease) (now : ℕ) (call : Settle) :
    (s.performSettle cfg w lease now call).phases = s.phases ∧
      ∀ v, (s.performSettle cfg w lease now call).submissions v = s.submissions v := by
  cases call with
  | decide e =>
    simp only [performSettle]
    split <;> exact ⟨rfl, fun _ => rfl⟩
  | _ => exact ⟨rfl, fun _ => rfl⟩

/-- A lease that was just issued has no writes yet. -/
theorem Piped.issue (h : Piped safe s) {start stop : ℕ} {sched : SegmentScheduler}
    (hnext : sched.nextLease = s.sched.nextLease + 1) :
    Piped safe ({ s with sched := sched }.setPhase w (.holding (s.sched.ledger.freshLease start stop))) := by
  have hle : s.sched.nextLease ≤ sched.nextLease := by
    rw [hnext]
    exact Nat.le_succ _
  have h' : Piped safe { s with sched := sched } := h.frame hle rfl fun _ => rfl
  refine h'.setPhase ⟨?_, fun sub hsub => ?_⟩
  · show s.sched.nextLease < sched.nextLease
    rw [hnext]
    exact Nat.lt_succ_self _
  · exact (h.known w sub hsub).1.ne

/-- A call of an ending, and what the worker does next. -/
theorem Piped.settle (h : Piped safe s) {now : ℕ}
    (hledger : s.sched.nextLease ≤ s'.sched.nextLease)
    (hs : s.workerStep cfg w (.settle now) = some s') : Piped safe s' := by
  simp only [workerStep] at hs
  split at hs
  · next lease call todo hw =>
    rw [← Option.some.inj hs] at hledger ⊢
    have hwrites : (s.performSettle cfg w lease now call).phases = s.phases ∧
        ∀ v, (s.performSettle cfg w lease now call).submissions v = s.submissions v :=
      s.performSettle_writes lease now call
    obtain ⟨hphases, hsub⟩ := hwrites
    have h' : Piped safe (s.performSettle cfg w lease now call) := h.frame hledger hphases hsub
    refine h'.setPhase ?_
    split_ifs
    · cases call with
      | decide e =>
        simp only [afterSettle]
        split_ifs <;> trivial
      | _ => trivial
    · trivial
  · cases hs

theorem Piped.acquire (h : Piped safe s) {readyDivisor now : ℕ}
    (hs : s.workerStep cfg w (.acquire readyDivisor now) = some s') : Piped safe s' := by
  simp only [workerStep] at hs
  split at hs
  · split at hs
    · next lease sched hacq =>
      obtain ⟨start, stop, gapEnd, -, -, -, rfl, hcarve⟩ := SegmentScheduler.acquire_ledger hacq
      rw [← Option.some.inj hs]
      exact h.issue (congrArg Ledger.nextLease hcarve)
    · rw [← Option.some.inj hs]
      exact h.frame le_rfl rfl fun _ => rfl
  · cases hs

theorem Piped.split (h : Piped safe s) {leaseId now : ℕ}
    (hs : s.workerStep cfg w (.split leaseId now) = some s') : Piped safe s' := by
  simp only [workerStep] at hs
  split at hs
  · split at hs
    · cases hs
    · split at hs
      · next lease sched hsplit =>
        obtain ⟨l, newStart, -, -, -, -, -, rfl, hledger⟩ :=
          SegmentScheduler.splitTail_ledger hsplit
        rw [← Option.some.inj hs]
        exact h.issue (congrArg Ledger.nextLease hledger)
      · cases hs
  · cases hs

/-- **Every step keeps the accounting of the pipelined bodies.** -/
theorem Piped.step (h : Piped safe s) {e : SegmentedEvent} (hok : safe → s.safeRefresh e = true)
    (hs : segmentedStep cfg s e = some s') : Piped safe s' := by
  have hledger := SegmentScheduler.steps_nextLease_le (segmentedStep_steps hs)
  cases e with
  | reconcile =>
    rw [← Option.some.inj hs] at hledger ⊢
    exact h.frame hledger rfl fun _ => rfl
  | cancel =>
    rw [← Option.some.inj hs]
    exact h.frame le_rfl rfl fun _ => rfl
  | worker w e =>
    simp only [segmentedStep] at hs
    split_ifs at hs
    have hp := h.phases w
    cases e with
    | acquire readyDivisor now => exact h.acquire hs
    | split leaseId now => exact h.split hs
    | exit =>
      simp only [workerStep] at hs
      split at hs
      · split_ifs at hs
        rw [← Option.some.inj hs]
        exact h.setPhase trivial
      · cases hs
    | respond status headers =>
      simp only [workerStep] at hs
      split at hs
      · next lease hw =>
        rw [← Option.some.inj hs]
        exact h.respond hw status headers
      · cases hs
    | requestFault e =>
      simp only [workerStep] at hs
      split at hs
      · rw [← Option.some.inj hs]
        exact h.setPhase trivial
      · cases hs
    | refresh => exact h.refresh hok hs
    | receive len => exact h.receive hs
    | writeAck failure =>
      simp only [workerStep, SegmentedState.writeAck] at hs
      split at hs
      · split at hs
        · rw [← Option.some.inj hs]
          exact h.setPhase trivial
        · rw [← Option.some.inj hs]
          refine Piped.setPhase (w := w) ?_ ?_
          · exact h.frame le_rfl rfl fun _ => rfl
          · split <;> trivial
      · cases hs
    | execute index outcome => exact h.execute hs
    | settleCompletion =>
      simp only [workerStep] at hs
      split at hs
      · next t f hw =>
        rw [hw] at hp
        refine h.settleCompletion hp ?_ hs
        exact fun hok => hok
      · next t f retry hw =>
        rw [hw] at hp
        refine h.settleCompletion hp ?_ hs
        exact fun hok => hok
      · cases hs
    | endOfBody =>
      simp only [workerStep] at hs
      split at hs
      · rw [← Option.some.inj hs]
        exact h.setPhase trivial
      · next t f hw =>
        rw [hw] at hp
        rw [← Option.some.inj hs]
        exact h.setPhase (p := .draining t f none) hp
      · cases hs
    | bodyFault e => exact h.bodyFault hs
    | drained =>
      simp only [workerStep] at hs
      split at hs
      · exact h.drained hs
      · cases hs
    | abort =>
      simp only [workerStep] at hs
      split_ifs at hs
      split at hs
      · rw [← Option.some.inj hs]
        exact h.setPhase trivial
      · rw [← Option.some.inj hs]
        exact h.setPhase trivial
      · rw [← Option.some.inj hs]
        exact h.setPhase trivial
      · cases hs
    | finish =>
      simp only [workerStep] at hs
      split at hs
      · rw [← Option.some.inj hs]
        exact h.setPhase trivial
      · cases hs
    | settle now => exact h.settle hledger hs

theorem piped_init (cfg : SegmentedConfig) : Piped safe (segmentedInit cfg) where
  known := fun _ _ hsub => by cases hsub
  phases := fun _ => trivial

end SegmentedState

open SegmentedState in
/-- **A drained body closes.**  In every run whose refreshes are safe, a
pipelined body that has delivered every byte up to its stop boundary, and whose
writes are all acknowledged, ends in success. -/
theorem drained_body_closes (cfg : SegmentedConfig) {s : SegmentedState} {w : ℕ} {t : Transfer}
    {f : LeaseFrontier}
    (h : Reach (segmentedStep cfg) (fun s e => s.safeRefresh e = true) (· = segmentedInit cfg) s)
    (hw : s.phases w = .draining t f none) (hdelivered : t.effectiveEnd < t.absOffset)
    (hacknowledged : f.hasOutstanding = false) :
    s.workerStep cfg w .drained = some (s.setPhase w (.closing t (t.effectiveEnd + 1))) := by
  have hpiped : Piped True s := by
    refine Reach.invariant (fun s₀ h₀ => ?_) (fun s₁ e s₂ h₁ hok hs => ?_) h
    · rw [h₀]
      exact piped_init cfg
    · exact h₁.step (fun _ => hok) hs
  have hpipe : PipeOk True s w t f := by
    have hp := hpiped.phases w
    rw [hw] at hp
    exact hp
  -- the frontier, the offset and the boundary meet
  have hthrough : f.acknowledgedThrough = t.effectiveEnd + 1 := by
    rw [hpipe.acknowledgedThrough_eq hacknowledged]
    exact le_antisymm (hpipe.reached trivial) hdelivered
  simp only [workerStep, hw, SegmentedState.drained]
  rw [if_neg (by rw [hacknowledged]; exact Bool.false_ne_true), if_neg (not_not.mpr hthrough),
    hthrough]

/-! ### A body that closes and one that does not -/

/-- A job of a million bytes with two workers on the shared executor, with the
policy of explicit segment sizes. -/
def pipelinedJob : SegmentedConfig where
  totalSize := 1000000
  validators := ⟨none, false, none, some 1000000⟩
  admitted := []
  policy := .withTarget 1 1000000 (.explicit 1000000) (256 * 1024)
  retry := ⟨true, true, true, 3⟩
  workers := 2
  pipelined := true

/-- One worker takes the file and submits its first `len` bytes. -/
def submitted (len : ℕ) : List SegmentedEvent :=
  [.worker 0 (.acquire 0 0), .worker 0 (.respond 206 [("content-range", "bytes 0-999999/1000000")]),
    .worker 0 .refresh, .worker 0 (.receive len)]

/-- The body ends, its write succeeds and is answered. -/
def answered : List SegmentedEvent :=
  [.worker 0 .endOfBody, .worker 0 (.execute 0 .completed), .worker 0 .settleCompletion]

/-- The other worker splits the lease, and the first one sees it. -/
def splitAndSeen : List SegmentedEvent := [.worker 1 (.split 1 0), .worker 0 .refresh]

/-- Everything up to the boundary is delivered and acknowledged. -/
def readyToClose : Phase → Bool
  | .draining t f none => t.effectiveEnd < t.absOffset && !f.hasOutstanding
  | _ => false

/-- The body ended, and the lease's boundary is the given one. -/
def drainsTo (boundary : ℕ) : Phase → Bool
  | .draining t _ _ => t.effectiveEnd = boundary
  | _ => false

/-- The worker settles its lease after an error. -/
def isSettling : Phase → Bool
  | .settling _ _ => true
  | _ => false

theorem draining_of_readyToClose {p : Phase} (h : readyToClose p = true) :
    ∃ t f, p = .draining t f none ∧ t.effectiveEnd < t.absOffset ∧ f.hasOutstanding = false := by
  cases p with
  | draining t f retry =>
    cases retry with
    | none =>
      simp only [readyToClose, Bool.and_eq_true, decide_eq_true_eq, Bool.not_eq_true'] at h
      exact ⟨t, f, rfl, h⟩
    | some e => cases h
  | _ => cases h

/-- Less than half is in flight when the other worker splits the lease; the first
one goes on to the boundary, and both its writes are answered. -/
def splitAbove : List SegmentedEvent :=
  submitted 400000 ++ splitAndSeen ++
    [.worker 0 (.receive 100000), .worker 0 .endOfBody, .worker 0 (.execute 0 .completed),
      .worker 0 (.execute 0 .completed), .worker 0 .settleCompletion, .worker 0 .settleCompletion]

open SegmentedState in
/-- The lease closes at the boundary of the split. -/
theorem drained_body_closes_split :
    ∃ s t f, runEvents (segmentedStep pipelinedJob) (segmentedInit pipelinedJob) splitAbove =
        some s ∧ s.phases 0 = .draining t f none ∧ t.effectiveEnd + 1 = 500000 ∧
      s.workerStep pipelinedJob 0 .drained = some (s.setPhase 0 (.closing t 500000)) := by
  obtain ⟨s, hrun, hready, hend⟩ : ∃ s ∈ runEvents (segmentedStep pipelinedJob)
      (segmentedInit pipelinedJob) splitAbove,
      readyToClose (s.phases 0) = true ∧ drainsTo 499999 (s.phases 0) = true := by
    decide +kernel
  have hok : runOk (segmentedStep pipelinedJob) (fun s e => s.safeRefresh e = true)
      (segmentedInit pipelinedJob) splitAbove := by
    decide +kernel
  obtain ⟨t, f, hw, hdelivered, hout⟩ := draining_of_readyToClose hready
  rw [hw] at hend
  have hboundary : t.effectiveEnd = 499999 := decide_eq_true_eq.mp hend
  have hclose :=
    drained_body_closes pipelinedJob (.of_run (.start rfl) hok hrun) hw hdelivered hout
  rw [hboundary] at hclose
  exact ⟨s, t, f, hrun, hw, by rw [hboundary], hclose⟩

open SegmentedState in
/-- The lease is split at half while 800000 bytes are in flight and nothing is
published; the body is then judged by the new boundary and fails. -/
theorem split_below_submitted :
    ¬ ∀ (cfg : SegmentedConfig) (s : SegmentedState) (w : ℕ) (t : Transfer) (f : LeaseFrontier),
      Reach (segmentedStep cfg) (fun _ _ => True) (· = segmentedInit cfg) s →
      s.phases w = .draining t f none → t.effectiveEnd < t.absOffset → f.hasOutstanding = false →
      s.workerStep cfg w .drained = some (s.setPhase w (.closing t (t.effectiveEnd + 1))) := by
  intro h
  obtain ⟨s, hrun, hready⟩ : ∃ s ∈ runEvents (segmentedStep pipelinedJob)
      (segmentedInit pipelinedJob) (submitted 800000 ++ splitAndSeen ++ answered),
      readyToClose (s.phases 0) = true ∧
        ((s.workerStep pipelinedJob 0 .drained).any fun s' => isSettling (s'.phases 0)) = true := by
    decide +kernel
  obtain ⟨t, f, hw, hdelivered, hout⟩ := draining_of_readyToClose hready.1
  have hclosed := h pipelinedJob s 0 t f (.of_run (.start rfl) runOk_true hrun) hw hdelivered hout
  have hfailed := hready.2
  rw [hclosed, Option.any_some] at hfailed
  simp only [SegmentedState.setPhase, Function.update_self] at hfailed
  cases hfailed

end KDown
