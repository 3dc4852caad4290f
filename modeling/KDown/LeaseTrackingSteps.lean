/-
KDown/LeaseTrackingSteps.lean

What the events of a segmented job do to the bytes in the workers' hands
(job/segmented.rs).

Bytes in hand are lost without a trace when a fatal ending, a failed write or
a new generation drops a lease that still has some, when a split takes the
part of a lease that its owner has already received, or when a worker receives
past the end its lease has in the scheduler.  Completing a lease below its end
covers bytes that nobody received.  `keepsInHand` is the condition that none of
this happens, and `Tracked.step` the result under it.
-/
import KDown.LeaseTracking

namespace KDown

namespace SegmentedState

variable {cfg : SegmentedConfig} {s s' : SegmentedState} {w v : ℕ}

/-! ### The condition -/

/-- The tail that a split would hand out. -/
def splitOf (cfg : SegmentedConfig) (s : SegmentedState) (leaseId now : ℕ) :
    Option (SegmentLease × SegmentScheduler) :=
  ((s.sched.largestSplittable s.sched.policy.splitThreshold).find? fun b => b.id = leaseId).bind
    fun b => s.sched.splitTail b.id b.generation s.sched.policy.splitThreshold
      (s.cellReceivedThrough cfg.workers b.id) now

/-- No byte in hand is lost, and none is covered that was not received. -/
def keepsInHand (cfg : SegmentedConfig) (s : SegmentedState) : SegmentedEvent → Bool
  | .worker w (.receive len) =>
      match s.phases w with
      | .reading t | .pipelining t _ =>
          -- an owned part of a chunk lies below the live end of the lease
          limitAccepts (some t.requested) t.delivered len &&
            (len = 0 || t.ownedLen len ≠ 0 &&
              (s.sched.active.get? t.lease.id).any fun l =>
                t.absOffset + t.ownedLen len ≤ l.stop + 1)
      | _ => true
  | .worker _ (.split leaseId now) =>
      -- what the owner has received is not handed out again
      (s.splitOf cfg leaseId now).all fun tail =>
        (List.range cfg.workers).all fun v =>
          !((s.phases v).lease?.any fun lease => lease.id = leaseId) || s.reached v ≤ tail.1.start
  | .worker _ (.writeAck failure) => failure.isNone
  | .worker w .settleCompletion =>
      match s.phases w with
      | .pipelining _ f | .draining _ f _ =>
          (s.completions w).head?.all fun c =>
            c.outcome.isCompleted || c.submission.leaseId ≠ f.leaseId ||
              c.submission.generation ≠ f.generation
      | _ => true
  | .worker w (.bodyFault e) =>
      match s.phases w with
      | .pipelining _ f =>
          match workerErrorFromFailure cfg.retry e with
          | .retryable _ => true
          | _ => !f.hasOutstanding
      | _ => true
  | .worker w .abort =>
      match s.phases w with
      | .pipelining _ f | .draining _ f _ => !f.hasOutstanding
      | _ => true
  | .worker w .finish => s.closesLease (.worker w .finish)
  | .worker w (.settle _) =>
      match s.phases w with
      | .settling _ (.bumpGeneration :: _) =>
          (List.range cfg.workers).all fun v => s.inHand v = 0
      | _ => true
  | _ => true

/-- The bytes an event adds to a worker's hand. -/
def takes (s : SegmentedState) : SegmentedEvent → ℕ → ℕ
  | .worker w (.receive len), v =>
      if v = w then
        match s.phases w with
        | .reading t | .pipelining t _ => t.ownedLen len
        | _ => 0
      else 0
  | _, _ => 0

/-- The event reconciles all cells. -/
def reconciles (s : SegmentedState) : SegmentedEvent → Bool
  | .reconcile => true
  | .worker w (.settle _) =>
      match s.phases w with
      | .settling _ (.reconcile :: _) => true
      | _ => false
  | _ => false

/-- The bytes an event credits to a worker. -/
def credits (s : SegmentedState) (e : SegmentedEvent) (v : ℕ) : ℕ :=
  if s.reconciles e then (s.sched.absorbCell (s.cells v)).1 else 0

/-! ### The events of a worker -/

/-- An ending with an error starts from what was published. -/
theorem Tracks.errorEnding {lease : SegmentLease} {n : ℕ} (h : Tracks s w lease n n)
    (e : WorkerError) : Ending s w lease (errorEnding e) := by
  cases e with
  | retryable e => exact .error h rfl
  | fatal e => exact .error h rfl
  | generationChanged e => exact .bump h

/-- The worker changes its phase and keeps its lease. -/
theorem Tracked.setPhase (h : Tracked cfg s) {lease : SegmentLease} {p : Phase}
    (hpiped : Piped False (s.setPhase w p)) (hold : (s.phases w).lease? = some lease)
    (hnew : p.lease? = some lease) (hphase : PhaseTracks s w p)
    (hreach : s.reachedIn w p = s.reached w) :
    Effect cfg s (s.setPhase w p) (fun _ => 0) (fun _ => 0) := by
  have hself : (s.setPhase w p).phases w = p := Function.update_self _ _ _
  refine h.move (w := w) rfl hpiped (fun v hv => ⟨Function.update_of_ne hv _ _, rfl⟩) ?_ ?_ ?_
  · intro lease' hl'
    rw [hself, hnew] at hl'
    rw [hold]
    exact hl'
  · rw [hself]
    exact hphase.frame (.refl _) h.wellFormed rfl fun lease' written _ ht l' hl' =>
      (ht.live l' hl').2.2
  · have hreach' : (s.setPhase w p).reached w = s.reached w := by
      rw [reached, hself]
      exact hreach
    rw [inHand_eq hold, inHand_eq (s := s.setPhase w p) (by rw [hself]; exact hnew), hreach']
    rfl

/-- The worker gives its lease up to an ending with an error. -/
theorem Tracked.setError (h : Tracked cfg s) {lease : SegmentLease} (e : WorkerError)
    (hpiped : Piped False (s.setPhase w (.settling lease (KDown.errorEnding e))))
    (hold : (s.phases w).lease? = some lease) (ht : Tracks s w lease (s.reached w) (s.reached w)) :
    Effect cfg s (s.setPhase w (.settling lease (KDown.errorEnding e))) (fun _ => 0)
      (fun _ => 0) :=
  h.setPhase hpiped hold rfl (ht.errorEnding e) ht.startFrom

/-- A new lease begins with nothing received. -/
theorem Tracked.acquire (h : Tracked cfg s) (hw : w < cfg.workers) {divisor now : ℕ}
    (hpiped : Piped False s') (hs : s.workerStep cfg w (.acquire divisor now) = some s') :
    Effect cfg s s' (fun _ => 0) (fun _ => 0) := by
  simp only [workerStep] at hs
  split at hs
  · next hidle =>
    split at hs
    · next lease sched hacq =>
      rw [← Option.some.inj hs]
      have hcover := SegmentScheduler.coverage_acquire
        (s := s.sched.setReadyWorkDivisor divisor) h.wellFormed hacq
      obtain ⟨start, stop, gapEnd, hgap, hord, hend, rfl, hled⟩ :=
        SegmentScheduler.acquire_ledger hacq
      have hactive : sched.active = s.sched.active.insert s.sched.nextLease
          (s.sched.ledger.freshLease start stop) := congrArg Ledger.active hled
      have hget : ∀ id < s.sched.nextLease, sched.active.get? id = s.sched.active.get? id := by
        intro id hid
        rw [hactive]
        exact SortedMap.get?_insert_of_ne _ _ hid.ne
      refine h.issue hidle hw hord ?_ (congrArg Ledger.nextLease hled) ?_ ?_ ?_ hcover
      · rw [hled]
        exact .single (.carve hgap hord hend)
      · rw [hactive]
        exact SortedMap.get?_insert_self _ _ _
      · intro v hv _ lease hl l' hl'
        rw [hget lease.id ((h.phases v hv).inUse hl)] at hl'
        exact ⟨l', hl', rfl, .inl rfl⟩
      · intro id hid
        rw [SegmentScheduler.leaseNextOffset, hget id hid]
        rfl
    · rw [← Option.some.inj hs] at hpiped ⊢
      refine h.move (w := w) rfl hpiped (fun v _ => ⟨rfl, rfl⟩) (fun _ hl => hl) ?_ rfl
      exact (h.phases w hw).frame (.refl _) h.wellFormed rfl fun lease' written _ ht l' hl' =>
        (ht.live l' hl').2.2
  · cases hs

/-- A split takes bytes away that nobody has received. -/
theorem Tracked.split (h : Tracked cfg s) (hw : w < cfg.workers) {leaseId now : ℕ}
    (hok : s.keepsInHand cfg (.worker w (.split leaseId now)) = true)
    (hs : s.workerStep cfg w (.split leaseId now) = some s') :
    Effect cfg s s' (fun _ => 0) (fun _ => 0) := by
  simp only [workerStep] at hs
  split at hs
  · next hidle =>
    split at hs
    · cases hs
    · next b hfind =>
      split at hs
      · next lease sched hsplit =>
        rw [← Option.some.inj hs]
        have hb : b.id = leaseId := by simpa using List.find?_some hfind
        -- what the condition says of the owner
        have hreceived : ∀ v < cfg.workers, ∀ lease', (s.phases v).lease? = some lease' →
            lease'.id = b.id → s.reached v ≤ lease.start := by
          intro v hv lease' hl' hid
          have hof : s.splitOf cfg leaseId now = some (lease, sched) := by
            rw [splitOf, hfind]
            exact hsplit
          simp only [keepsInHand, hof, Option.all_some, List.all_eq_true, List.mem_range,
            Bool.or_eq_true, Bool.not_eq_true', decide_eq_true_eq] at hok
          refine (hok v hv).resolve_left fun hno => ?_
          rw [hl', Option.any_some] at hno
          simp [hid, hb] at hno
        have hcover := SegmentScheduler.coverage_splitTail h.wellFormed hsplit
        obtain ⟨l, newStart, hget, -, hlow, -, hend, rfl, hled⟩ :=
          SegmentScheduler.splitTail_ledger hsplit
        have hactive : sched.active = (s.sched.active.insert b.id
            { l with stop := newStart - 1 }).insert s.sched.nextLease
            (s.sched.ledger.freshLease newStart l.stop) := congrArg Ledger.active hled
        have hlookup : ∀ id < s.sched.nextLease, sched.active.get? id =
            if id = b.id then some { l with stop := newStart - 1 }
            else s.sched.active.get? id := by
          intro id hid
          rw [hactive, SortedMap.get?_insert_of_ne _ _ hid.ne, SortedMap.get?_insert]
        refine h.issue hidle hw hend ?_ (congrArg Ledger.nextLease hled) ?_ ?_ ?_ hcover
        · rw [hled]
          exact .single (.split hget hlow hend)
        · rw [hactive]
          exact SortedMap.get?_insert_self _ _ _
        · intro v hv _ lease' hl l' hl'
          rw [hlookup lease'.id ((h.phases v hv).inUse hl)] at hl'
          split_ifs at hl' with hid
          · cases hl'
            refine ⟨l, hid ▸ hget, rfl, .inr ?_⟩
            have hle : s.reached v ≤ newStart := hreceived v hv lease' hl hid
            show s.reached v ≤ newStart - 1 + 1
            omega
          · exact ⟨l', hl', rfl, .inl rfl⟩
        · intro id hid
          rw [SegmentScheduler.leaseNextOffset, hlookup id hid]
          split_ifs with hb'
          · rw [hb']
            exact (leaseNextOffset_of_get? hget).symm
          · rfl
      · cases hs
  · cases hs

/-- A worker leaves with nothing in hand. -/
theorem Tracked.exit (h : Tracked cfg s) (hw : w < cfg.workers) (hpiped : Piped False s')
    (hs : s.workerStep cfg w .exit = some s') : Effect cfg s s' (fun _ => 0) (fun _ => 0) := by
  simp only [workerStep] at hs
  split at hs
  · next hidle =>
    split_ifs at hs
    rw [← Option.some.inj hs] at hpiped ⊢
    have hself : (s.setPhase w .exited).phases w = .exited := Function.update_self _ _ _
    have hcell : s.cells w = none := by
      have hp := h.phases w hw
      rw [hidle] at hp
      exact hp
    refine h.move (w := w) rfl hpiped (fun v hv => ⟨Function.update_of_ne hv _ _, rfl⟩) ?_ ?_ ?_
    · intro lease hl
      rw [hself] at hl
      cases hl
    · rw [hself]
      intro r hr
      rw [show (s.setPhase w .exited).cells w = none from hcell] at hr
      cases hr
    · rw [inHand_of_none (s := s) (by rw [hidle]; rfl), inHand_of_none (by rw [hself]; rfl)]
  · cases hs

/-- A response opens a body, or gives the lease back. -/
theorem Tracked.respond (h : Tracked cfg s) (hw : w < cfg.workers) {lease : SegmentLease}
    (hphase : s.phases w = .holding lease) {status : ℕ} {headers : Headers}
    (hpiped : Piped False (s.respond cfg w lease status headers)) :
    Effect cfg s (s.respond cfg w lease status headers) (fun _ => 0) (fun _ => 0) := by
  have ht : Tracks s w lease lease.nextOffset lease.nextOffset := by
    have hp := h.phases w hw
    rw [hphase] at hp
    exact hp
  have hlease : (s.phases w).lease? = some lease := by rw [hphase]; rfl
  have hreach : s.reached w = lease.nextOffset := by
    rw [reached, hphase, reachedIn, ht.startFrom]
  unfold SegmentedState.respond at hpiped ⊢
  simp only at hpiped ⊢
  cases e : transfer (.range ⟨(s.startFrom w lease, lease.stop), some cfg.totalSize,
      some cfg.validators, .invalidRange⟩) status headers with
  | error err =>
    rw [e] at hpiped
    exact h.setError _ hpiped hlease (by rw [hreach]; exact ht)
  | ok response =>
    rw [e] at hpiped
    -- the accepted body starts where the request does
    have hstart : response.start = lease.nextOffset := by
      rw [transfer_range_start e]
      exact ht.startFrom
    refine h.setPhase (p := .opening _) hpiped hlease rfl ?_ ?_
    · show Tracks s w lease (response.start + 0) (response.start + 0)
      rw [hstart]
      exact ht
    · show response.start + 0 = s.reached w
      rw [hstart, hreach]
      rfl

theorem Tracked.requestFault (h : Tracked cfg s) (hw : w < cfg.workers) {e : DownloadError}
    (hpiped : Piped False s') (hs : s.workerStep cfg w (.requestFault e) = some s') :
    Effect cfg s s' (fun _ => 0) (fun _ => 0) := by
  simp only [workerStep] at hs
  split at hs
  · next lease hphase =>
    rw [← Option.some.inj hs] at hpiped ⊢
    have ht : Tracks s w lease lease.nextOffset lease.nextOffset := by
      have hp := h.phases w hw
      rw [hphase] at hp
      exact hp
    have hreach : s.reached w = lease.nextOffset := by
      rw [reached, hphase, reachedIn, ht.startFrom]
    exact h.setError _ hpiped (by rw [hphase]; rfl) (by rw [hreach]; exact ht)
  · cases hs

/-- The owner learns of a new end above what it has received. -/
theorem Tracked.refresh (h : Tracked cfg s) (hw : w < cfg.workers) (hpiped : Piped False s')
    (hs : s.workerStep cfg w .refresh = some s') : Effect cfg s s' (fun _ => 0) (fun _ => 0) := by
  have hp := h.phases w hw
  simp only [workerStep] at hs
  cases ep : s.phases w with
  | opening t =>
    rw [ep] at hs hp
    rw [← Option.some.inj hs] at hpiped ⊢
    have ht : Tracks s w t.lease t.absOffset t.absOffset := hp
    cases hmode : cfg.pipelined with
    | false =>
      rw [hmode] at hpiped
      refine h.setPhase (p := .reading (s.refreshed t)) hpiped (by rw [ep]; rfl)
        (congrArg some (refreshed_lease t)) ?_ ?_
      · show Tracks s w (s.refreshed t).lease (s.refreshed t).absOffset (s.refreshed t).absOffset
        rw [refreshed_lease, refreshed_absOffset]
        exact ht
      · rw [reached, ep]
        exact refreshed_absOffset t
    | true =>
      rw [hmode] at hpiped
      -- nothing is outstanding in a new frontier, so it stands at the offset
      have hpipe := hpiped.phases w
      simp only [SegmentedState.setPhase, Function.update_self] at hpipe
      have hthrough := PipeOk.acknowledgedThrough_eq hpipe rfl
      refine h.setPhase (p := .pipelining (s.refreshed t) _) hpiped (by rw [ep]; rfl)
        (congrArg some (refreshed_lease t)) ⟨?_, ?_⟩ ?_
      · rw [hthrough, refreshed_lease, refreshed_absOffset]
        exact ht
      · rw [refreshed_lease]
        rfl
      · rw [reached, ep]
        exact refreshed_absOffset t
  | reading t =>
    rw [ep] at hs hp
    rw [← Option.some.inj hs] at hpiped ⊢
    refine h.setPhase (p := .reading (s.refreshed t)) hpiped (by rw [ep]; rfl)
      (congrArg some (refreshed_lease t)) ?_ ?_
    · show Tracks s w (s.refreshed t).lease (s.refreshed t).absOffset (s.refreshed t).absOffset
      rw [refreshed_lease, refreshed_absOffset]
      exact hp
    · rw [reached, ep]
      exact refreshed_absOffset t
  | pipelining t f =>
    rw [ep] at hs hp
    rw [← Option.some.inj hs] at hpiped ⊢
    refine h.setPhase (p := .pipelining (s.refreshed t) f) hpiped (by rw [ep]; rfl)
      (congrArg some (refreshed_lease t)) ⟨?_, ?_⟩ ?_
    · rw [refreshed_lease, refreshed_absOffset]
      exact hp.1
    · rw [refreshed_lease]
      exact hp.2
    · rw [reached, ep]
      exact refreshed_absOffset t
  | _ =>
    rw [ep] at hs
    cases hs

/-- A worker receives an owned part of a chunk. -/
theorem Tracked.take (h : Tracked cfg s) (hw : w < cfg.workers) {lease l : SegmentLease}
    {written owned : ℕ} (hsched : s'.sched = s.sched) (hcells : s'.cells = s.cells)
    (hpiped : Piped False s') (hothers : ∀ v, v ≠ w → s'.phases v = s.phases v)
    (hold : (s.phases w).lease? = some lease) (hnew : (s'.phases w).lease? = some lease)
    (ht : Tracks s w lease written (s.reached w)) (hl : s.sched.active.get? lease.id = some l)
    (hend : s.reached w + owned ≤ l.stop + 1) (hreach : s'.reached w = s.reached w + owned)
    (hphase : Tracks s' w lease written (s.reached w + owned) →
      PhaseTracks s' w (s'.phases w)) :
    Effect cfg s s' (fun v => if v = w then owned else 0) (fun _ => 0) := by
  have ht' : Tracks s' w lease written (s.reached w + owned) := by
    refine ⟨by rw [hsched]; exact ht.inUse, ht.low, ht.high.trans (Nat.le_add_right _ _), ?_, ?_⟩
    · intro l' hl'
      rw [hsched, hl] at hl'
      cases hl'
      obtain ⟨hgen, hlow, hnext, -⟩ := ht.live l hl
      exact ⟨hgen, hlow, hnext, hend⟩
    · rw [hcells]
      exact ht.cell
  refine ⟨?_, ?_, ?_⟩
  · refine h.update (w := w) (by rw [hsched]) hpiped
      (fun v hv => ⟨hothers v hv, by rw [hcells]⟩) ?_ ?_ (hphase ht')
    · intro v hv hne lease' written' hl' htv l' hlive
      rw [hsched] at hlive
      exact (htv.live l' hlive).2.2
    · intro lease' hl'
      rw [hnew] at hl'
      exact .inl (hold.trans hl')
  · intro v hv
    by_cases hvw : v = w
    · subst hvw
      have hnext := (ht.live l hl).2.2.1
      have hhigh := ht.high
      rw [inHand_of_live hold hl, inHand_of_live hnew (by rw [hsched]; exact hl), hreach,
        if_pos rfl]
      omega
    · rw [if_neg hvw]
      exact inHand_congr (hothers v hvw) (by rw [hcells]) fun _ _ => by rw [hsched]
  · rw [hsched]
    simp

/-- The same, where the worker goes on in another phase. -/
theorem Tracked.takeIn (h : Tracked cfg s) (hw : w < cfg.workers) {u : SegmentedState} {p : Phase}
    {lease l : SegmentLease} {written n owned : ℕ} (hsched : u.sched = s.sched)
    (hcells : u.cells = s.cells) (hphases : u.phases = s.phases)
    (hpiped : Piped False (u.setPhase w p)) (hold : (s.phases w).lease? = some lease)
    (hnew : p.lease? = some lease) (hreach : s.reached w = n) (ht : Tracks s w lease written n)
    (hl : s.sched.active.get? lease.id = some l) (hend : n + owned ≤ l.stop + 1)
    (hreach' : (u.setPhase w p).reachedIn w p = n + owned)
    (hphase : Tracks (u.setPhase w p) w lease written (n + owned) →
      PhaseTracks (u.setPhase w p) w p) :
    Effect cfg s (u.setPhase w p) (fun v => if v = w then owned else 0) (fun _ => 0) := by
  subst hreach
  have hself : (u.setPhase w p).phases w = p := Function.update_self ..
  have hsched' : (u.setPhase w p).sched = s.sched := hsched
  refine h.take hw hsched' hcells hpiped ?_ hold ?_ ht hl hend ?_ ?_
  · intro v hv
    rw [← hphases]
    exact Function.update_of_ne hv ..
  · rw [hself]
    exact hnew
  · rw [reached, hself]
    exact hreach'
  · rw [hself]
    exact hphase

/-- Nothing is taken from an empty chunk. -/
theorem ownedLen_zero (t : Transfer) : t.ownedLen 0 = 0 := by
  rw [Transfer.ownedLen]
  split_ifs
  · rfl
  · exact Nat.min_zero _

theorem ite_zero_eq (k : ℕ) (hk : k = 0) :
    (fun v => if v = w then k else 0) = fun _ => 0 := by
  funext v
  rw [hk]
  exact ite_self 0

/-- **A chunk is taken up to the end of the lease**, and no further. -/
theorem Tracked.receive (h : Tracked cfg s) (hw : w < cfg.workers) {len : ℕ}
    (hok : s.keepsInHand cfg (.worker w (.receive len)) = true) (hpiped : Piped False s')
    (hs : s.receive cfg w len = some s') :
    Effect cfg s s' (s.takes (.worker w (.receive len))) (fun _ => 0) := by
  have hp := h.phases w hw
  unfold SegmentedState.receive at hs
  cases ep : s.phases w with
  | reading t =>
    rw [ep] at hs hp
    have ht : Tracks s w t.lease t.absOffset t.absOffset := hp
    have hreach : s.reached w = t.absOffset := by rw [reached, ep]; rfl
    have hlease : (s.phases w).lease? = some t.lease := by rw [ep]; rfl
    simp only [keepsInHand, ep, Bool.and_eq_true, Bool.or_eq_true, decide_eq_true_eq,
      Option.any_eq_true, ne_eq] at hok
    obtain ⟨hlimit, hok⟩ := hok
    have htakes : s.takes (.worker w (.receive len)) =
        fun v => if v = w then t.ownedLen len else 0 := by
      funext v
      simp only [takes, ep]
    rw [htakes]
    simp only [hlimit, Bool.not_true, Bool.false_eq_true, if_false] at hs
    split_ifs at hs with hzero
    · rw [← Option.some.inj hs] at hpiped ⊢
      rw [ite_zero_eq _ hzero]
      exact h.setPhase (p := .closing _ t.absOffset) hpiped hlease rfl ht hreach.symm
    · rw [← Option.some.inj hs] at hpiped ⊢
      obtain ⟨-, l, hl, hend⟩ := hok.resolve_left fun hlen => hzero (by rw [hlen, ownedLen_zero])
      exact h.takeIn hw rfl rfl rfl hpiped hlease rfl hreach ht hl hend rfl fun ht' => ht'
  | pipelining t f =>
    rw [ep] at hs hp
    obtain ⟨ht, hgen⟩ := hp
    have hreach : s.reached w = t.absOffset := by rw [reached, ep]; rfl
    have hlease : (s.phases w).lease? = some t.lease := by rw [ep]; rfl
    simp only [keepsInHand, ep, Bool.and_eq_true, Bool.or_eq_true, decide_eq_true_eq,
      Option.any_eq_true, ne_eq] at hok
    obtain ⟨hlimit, hok⟩ := hok
    have htakes : s.takes (.worker w (.receive len)) =
        fun v => if v = w then t.ownedLen len else 0 := by
      funext v
      simp only [takes, ep]
    rw [htakes]
    simp only [hlimit, Bool.not_true, Bool.false_eq_true, if_false] at hs
    by_cases hzero : t.ownedLen len = 0
    · rw [if_pos hzero] at hs
      rw [← Option.some.inj hs] at hpiped ⊢
      rw [ite_zero_eq _ hzero]
      exact h.setPhase (p := .draining _ f none) hpiped hlease rfl ⟨ht, hgen⟩ hreach.symm
    · rw [if_neg hzero] at hs
      obtain ⟨-, l, hl, hend⟩ := hok.resolve_left fun hlen => hzero (by rw [hlen, ownedLen_zero])
      have hmoved : t.absOffset + t.ownedLen len =
          t.validatedStart + (t.inRangeOffset + t.ownedLen len) := Nat.add_assoc _ _ _
      -- the new part is not acknowledged yet, so the frontier stays
      have hphase : ∀ u : SegmentedState,
          Tracks u w t.lease f.acknowledgedThrough (t.absOffset + t.ownedLen len) →
          PhaseTracks u w (if t.ownedLen len < len then
            .draining { t with
              delivered := t.delivered + len
              inRangeOffset := t.inRangeOffset + t.ownedLen len }
              ((f.recordReceived t.absOffset (t.ownedLen len)).recordSubmission t.absOffset
                (t.ownedLen len)) none
            else .pipelining { t with
              delivered := t.delivered + len
              inRangeOffset := t.inRangeOffset + t.ownedLen len }
              ((f.recordReceived t.absOffset (t.ownedLen len)).recordSubmission t.absOffset
                (t.ownedLen len))) := by
        intro u ht'
        rw [hmoved] at ht'
        split_ifs
        · exact ⟨ht', hgen⟩
        · exact ⟨ht', hgen⟩
      rw [← Option.some.inj hs] at hpiped ⊢
      refine h.takeIn hw rfl rfl rfl hpiped hlease ?_ hreach ht hl hend ?_ (hphase _)
      · split_ifs <;> rfl
      · rw [hmoved]
        split_ifs <;> rfl
  | _ =>
    rw [ep] at hs
    cases hs

/-- A worker publishes what was written. -/
theorem Tracked.publish (h : Tracked cfg s) {lease : SegmentLease}
    (written through received start : ℕ) (hsched : s'.sched = s.sched) (hpiped : Piped False s')
    (hothers : ∀ v, v ≠ w → s'.phases v = s.phases v ∧ s'.cells v = s.cells v)
    (hcell : s'.cells w = some ⟨lease.id, lease.generation, start, through, received⟩)
    (hold : (s.phases w).lease? = some lease) (hnew : (s'.phases w).lease? = some lease)
    (ht : Tracks s w lease written (s.reached w)) (hmono : written ≤ through)
    (hthrough : through ≤ s.reached w) (hreach : s'.reached w = s.reached w)
    (hphase : ∀ s₁ : SegmentedState, Tracks s₁ w lease through (s.reached w) →
      PhaseTracks s₁ w (s'.phases w)) : Effect cfg s s' (fun _ => 0) (fun _ => 0) := by
  refine h.move (w := w) (by rw [hsched]) hpiped hothers ?_ (hphase s' ?_) ?_
  · intro lease' hl'
    rw [hnew] at hl'
    exact hold.trans hl'
  · refine ⟨by rw [hsched]; exact ht.inUse, ht.low.trans hmono, hthrough, ?_,
      .inr ⟨_, hcell, rfl, rfl, rfl⟩⟩
    intro l hl
    rw [hsched] at hl
    obtain ⟨hgen, hlow, hnext, hend⟩ := ht.live l hl
    exact ⟨hgen, hlow, hnext.trans hmono, hend⟩
  · rw [inHand_eq hold, inHand_eq hnew, hreach, hsched]

/-- An acknowledged write takes and credits nothing. -/
theorem Tracked.writeAck (h : Tracked cfg s) (hw : w < cfg.workers)
    (hpiped : Piped False s') (hs : s.writeAck w none = some s') :
    Effect cfg s s' (fun _ => 0) (fun _ => 0) := by
  have hp := h.phases w hw
  unfold SegmentedState.writeAck at hs
  split at hs
  · next t owned truncated ep =>
    rw [ep] at hp
    have ht : Tracks s w t.lease t.absOffset (t.absOffset + owned) := hp
    have hreach : s.reached w = t.absOffset + owned := by rw [reached, ep]; rfl
    have hmoved : t.absOffset + owned = t.validatedStart + (t.inRangeOffset + owned) :=
      Nat.add_assoc _ _ _
    rw [← hreach] at ht
    rw [← Option.some.inj hs] at hpiped ⊢
    refine h.publish t.absOffset (t.validatedStart + (t.inRangeOffset + owned))
      (t.validatedStart + (t.inRangeOffset + owned)) t.lease.start rfl hpiped ?_ ?_
      (by rw [ep]; rfl) ?_ ht ?_ ?_ ?_ ?_
    · intro v hv
      exact ⟨Function.update_of_ne hv _ _, Function.update_of_ne hv _ _⟩
    · exact Function.update_self _ _ _
    · simp only [SegmentedState.setPhase, Function.update_self]
      cases truncated <;> rfl
    · rw [← hmoved]
      exact Nat.le_add_right _ _
    · rw [hreach, hmoved]
    · rw [hreach, hmoved]
      simp only [reached, SegmentedState.setPhase, Function.update_self]
      cases truncated <;> rfl
    · intro s₁ ht'
      rw [hreach, hmoved] at ht'
      simp only [SegmentedState.setPhase, Function.update_self]
      cases truncated <;> exact ht'
  · cases hs

/-- The executor touches neither phases nor cells. -/
theorem Tracked.execute (h : Tracked cfg s) (hw : w < cfg.workers) {index : ℕ}
    {outcome : WriteOutcome} (hpiped : Piped False s')
    (hs : s.execute w index outcome = some s') : Effect cfg s s' (fun _ => 0) (fun _ => 0) := by
  unfold SegmentedState.execute at hs
  split at hs
  · cases hs
  · rw [← Option.some.inj hs] at hpiped ⊢
    refine h.move (w := w) rfl hpiped (fun v _ => ⟨rfl, rfl⟩) (fun _ hl => hl) ?_ rfl
    exact (h.phases w hw).frame (.refl _) h.wellFormed rfl fun lease' written _ ht l' hl' =>
      (ht.live l' hl').2.2

/-- The frontier of a pipelined body does not pass its offset. -/
theorem PipeOk.acknowledgedThrough_le {safe : Prop} {t : Transfer} {f : LeaseFrontier}
    (h : PipeOk safe s w t f) : f.acknowledgedThrough ≤ t.absOffset := by
  refine LeaseFrontier.acknowledgedThrough_le ?_ ?_ h.acknowledged
  · rw [h.start]
    exact Nat.le_add_right _ _
  · rw [h.stop]
    exact h.within

/-- A completion that does not fail moves the frontier up. -/
theorem PipeOk.acknowledgedThrough_mono {safe : Prop} {t : Transfer} {f : LeaseFrontier}
    (h : PipeOk safe s w t f) (sub : WriteSubmission) (success : Bool) :
    f.acknowledgedThrough ≤ (f.recordCompletion sub.leaseId sub.generation sub.offset sub.len
      success).2.acknowledgedThrough := by
  have hend : f.acknowledgedThrough ≤ f.stop + 1 := by
    rw [h.stop]
    exact h.acknowledgedThrough_le.trans h.within
  unfold LeaseFrontier.recordCompletion
  split_ifs
  · exact le_rfl
  · refine LeaseFrontier.le_acknowledgedThrough hend fun b hb hlt => ?_
    exact IntervalSet.mem_insert.mpr (.inl (LeaseFrontier.mem_acknowledged_of_lt_through hb hlt))
  · exact le_rfl

theorem recordCompletion_generation (f : LeaseFrontier) (sub : WriteSubmission) (success : Bool) :
    (f.recordCompletion sub.leaseId sub.generation sub.offset sub.len success).2.generation =
      f.generation := by
  unfold LeaseFrontier.recordCompletion
  split_ifs <;> rfl

/-- A completion of another lease or a successful one does not fail. -/
theorem recordCompletion_ne_failed {f : LeaseFrontier} {sub : WriteSubmission} {success : Bool}
    (h : success = true ∨ sub.leaseId ≠ f.leaseId ∨ sub.generation ≠ f.generation) :
    (f.recordCompletion sub.leaseId sub.generation sub.offset sub.len success).1 ≠ .failed := by
  unfold LeaseFrontier.recordCompletion
  split_ifs with hstale hok
  · exact fun hno => by cases hno
  · exact fun hno => by cases hno
  · exact absurd h (not_or.mpr ⟨hok, hstale⟩)

/-- So does a completion, which moves the frontier on. -/
theorem Tracked.settleCompletion (h : Tracked cfg s) {t : Transfer}
    {f : LeaseFrontier} {back : LeaseFrontier → Phase} (hpiped : Piped False s')
    (hlease : (s.phases w).lease? = some t.lease) (hreach : s.reached w = t.absOffset)
    (hpipe : PipeOk False s w t f) (ht : Tracks s w t.lease f.acknowledgedThrough t.absOffset)
    (hgen : f.generation = t.lease.generation)
    (hback : ∀ f', (back f').lease? = some t.lease ∧
      (∀ s₁ : SegmentedState, s₁.reachedIn w (back f') = t.absOffset) ∧
      ∀ s₁ : SegmentedState, Tracks s₁ w t.lease f'.acknowledgedThrough t.absOffset →
        f'.generation = t.lease.generation → PhaseTracks s₁ w (back f'))
    (hpipe' : ∀ f', s'.phases w = back f' → PipeOk False s' w t f')
    (hok : ∀ c rest, s.completions w = c :: rest → c.outcome.isCompleted = true ∨
      c.submission.leaseId ≠ f.leaseId ∨ c.submission.generation ≠ f.generation)
    (hs : s.settleCompletion w t f back = some s') :
    Effect cfg s s' (fun _ => 0) (fun _ => 0) := by
  unfold SegmentedState.settleCompletion at hs
  cases ec : s.completions w with
  | nil =>
    rw [ec] at hs
    cases hs
  | cons c rest =>
    rw [ec] at hs
    simp only at hs
    have hne := recordCompletion_ne_failed (hok c rest ec)
    have hgen' := recordCompletion_generation f c.submission c.outcome.isCompleted
    have hmono := hpipe.acknowledgedThrough_mono c.submission c.outcome.isCompleted
    have hspec := f.recordCompletion_spec c.submission.leaseId c.submission.generation
      c.submission.offset c.submission.len c.outcome.isCompleted
    split at hs
    · next through hr =>
      -- the new frontier is published
      have hthrough := hspec.2.2.2 through hr
      subst hthrough
      rw [← Option.some.inj hs] at hpiped hpipe' ⊢
      have hle := (hpipe' _ (Function.update_self _ _ _)).acknowledgedThrough_le
      obtain ⟨hlease', hreach', hphase'⟩ := hback (f.recordCompletion c.submission.leaseId
        c.submission.generation c.submission.offset c.submission.len c.outcome.isCompleted).2
      refine h.publish f.acknowledgedThrough (f.recordCompletion c.submission.leaseId
        c.submission.generation c.submission.offset c.submission.len
        c.outcome.isCompleted).2.acknowledgedThrough f.receivedHighWater f.start rfl hpiped ?_ ?_
        hlease ?_ (by rw [hreach]; exact ht) ?_ ?_ ?_ ?_
      · intro v hv
        exact ⟨Function.update_of_ne hv _ _, Function.update_of_ne hv _ _⟩
      · show Function.update s.cells w _ w = _
        rw [Function.update_self, hpipe.leaseId, hgen]
      · show (Function.update s.phases w _ w).lease? = _
        rw [Function.update_self]
        exact hlease'
      · exact hmono
      · rw [hreach]
        exact hle
      · show SegmentedState.reachedIn _ w (Function.update s.phases w _ w) = _
        rw [Function.update_self, hreach]
        exact hreach' _
      · intro s₁ ht'
        show PhaseTracks _ w (Function.update s.phases w _ w)
        rw [Function.update_self]
        rw [hreach] at ht'
        exact hphase' _ ht' (hgen'.trans hgen)
    · next hr => exact absurd hr hne
    · next hr =>
      -- a completion of another lease leaves the frontier as it is
      have hsame : (f.recordCompletion c.submission.leaseId c.submission.generation
          c.submission.offset c.submission.len c.outcome.isCompleted).2 = f := by
        unfold LeaseFrontier.recordCompletion at hr ⊢
        split_ifs at hr ⊢ with hstale
        rfl
      rw [hsame] at hs
      rw [← Option.some.inj hs] at hpiped ⊢
      obtain ⟨hlease', hreach', hphase'⟩ := hback f
      refine h.move (w := w) rfl hpiped (fun v hv => ⟨Function.update_of_ne hv _ _, rfl⟩) ?_ ?_ ?_
      · intro lease hl
        simp only [SegmentedState.setPhase, Function.update_self, hlease'] at hl
        exact hlease.trans hl
      · simp only [SegmentedState.setPhase, Function.update_self]
        exact hphase' _ ⟨ht.inUse, ht.low, ht.high, ht.live, ht.cell⟩ hgen
      · have hnew : (Function.update s.phases w (back f) w).lease? = some t.lease := by
          rw [Function.update_self]
          exact hlease'
        rw [inHand_eq hlease, inHand_eq hnew]
        show (s.sched.leaseNextOffset t.lease.id).elim 0
          (SegmentedState.reachedIn _ w (Function.update s.phases w _ w) - ·) = _
        rw [Function.update_self, hreach' _, hreach]

/-- So does the end of a body. -/
theorem Tracked.endOfBody (h : Tracked cfg s) (hw : w < cfg.workers) (hpiped : Piped False s')
    (hs : s.workerStep cfg w .endOfBody = some s') :
    Effect cfg s s' (fun _ => 0) (fun _ => 0) := by
  have hp := h.phases w hw
  simp only [workerStep] at hs
  cases ep : s.phases w with
  | reading t =>
    rw [ep] at hs hp
    rw [← Option.some.inj hs] at hpiped ⊢
    exact h.setPhase (p := .closing t t.absOffset) hpiped (by rw [ep]; rfl) rfl hp
      (by rw [reached, ep]; rfl)
  | pipelining t f =>
    rw [ep] at hs hp
    rw [← Option.some.inj hs] at hpiped ⊢
    exact h.setPhase (p := .draining t f none) hpiped (by rw [ep]; rfl) rfl hp
      (by rw [reached, ep]; rfl)
  | _ =>
    rw [ep] at hs
    cases hs

/-- A pipelined body with nothing outstanding has published all it received. -/
theorem PipeOk.published {t : Transfer} {f : LeaseFrontier}
    (hpipe : PipeOk False s w t f) (hreach : s.reached w = t.absOffset)
    (ht : Tracks s w t.lease f.acknowledgedThrough t.absOffset)
    (hout : f.hasOutstanding = false) :
    f.acknowledgedThrough = s.reached w ∧ Tracks s w t.lease (s.reached w) (s.reached w) := by
  have heq := hpipe.acknowledgedThrough_eq hout
  rw [heq] at ht
  rw [hreach]
  exact ⟨heq, ht⟩

/-- A body that fails is drained from where it stands. -/
theorem Tracked.bodyFault (h : Tracked cfg s) (hw : w < cfg.workers) {e : DownloadError}
    (hok : s.keepsInHand cfg (.worker w (.bodyFault e)) = true) (hpiped : Piped False s')
    (hs : s.bodyFault cfg w e = some s') : Effect cfg s s' (fun _ => 0) (fun _ => 0) := by
  have hp := h.phases w hw
  have hpipe := h.piped.phases w
  unfold SegmentedState.bodyFault at hs
  cases ep : s.phases w with
  | reading t =>
    rw [ep] at hs hp
    rw [← Option.some.inj hs] at hpiped ⊢
    have hreach : s.reached w = t.absOffset := by rw [reached, ep]; rfl
    exact h.setError _ hpiped (by rw [ep]; rfl) (by rw [hreach]; exact hp)
  | pipelining t f =>
    rw [ep] at hs hp hpipe
    have hreach : s.reached w = t.absOffset := by rw [reached, ep]; rfl
    have hlease : (s.phases w).lease? = some t.lease := by rw [ep]; rfl
    simp only [keepsInHand, ep] at hok
    simp only at hs
    split at hs
    · rw [← Option.some.inj hs] at hpiped ⊢
      exact h.setPhase (p := .draining t f _) hpiped hlease rfl hp hreach.symm
    · next hother =>
      rw [← Option.some.inj hs] at hpiped ⊢
      have hout : f.hasOutstanding = false := by
        split at hok
        · next e' heq => exact absurd heq (hother e')
        · simpa using hok
      exact h.setError _ hpiped hlease (PipeOk.published hpipe hreach hp.1 hout).2
  | _ =>
    rw [ep] at hs
    cases hs

/-- A drained body stands at what it was acknowledged for. -/
theorem Tracked.drained (h : Tracked cfg s) (hw : w < cfg.workers) (hpiped : Piped False s')
    (hs : s.workerStep cfg w .drained = some s') : Effect cfg s s' (fun _ => 0) (fun _ => 0) := by
  have hp := h.phases w hw
  have hpipe := h.piped.phases w
  simp only [workerStep] at hs
  cases ep : s.phases w with
  | draining t f retry =>
    rw [ep] at hs hp hpipe
    have hreach : s.reached w = t.absOffset := by rw [reached, ep]; rfl
    have hlease : (s.phases w).lease? = some t.lease := by rw [ep]; rfl
    simp only [SegmentedState.drained] at hs
    by_cases hout : f.hasOutstanding = true
    · rw [if_pos hout] at hs
      cases hs
    rw [if_neg hout] at hs
    obtain ⟨heq, hpub⟩ := PipeOk.published hpipe hreach hp.1 (Bool.eq_false_iff.mpr hout)
    cases retry with
    | some e =>
      rw [← Option.some.inj hs] at hpiped ⊢
      exact h.setError _ hpiped hlease hpub
    | none =>
      simp only at hs
      split_ifs at hs
      · rw [← Option.some.inj hs] at hpiped ⊢
        exact h.setError _ hpiped hlease hpub
      · rw [← Option.some.inj hs] at hpiped ⊢
        refine h.setPhase (p := .closing t _) hpiped hlease rfl ?_ heq
        show Tracks s w t.lease f.acknowledgedThrough f.acknowledgedThrough
        rw [heq]
        exact hpub
  | _ =>
    rw [ep] at hs
    cases hs

/-- A worker that is aborted keeps what it has received in hand. -/
theorem Tracked.abort (h : Tracked cfg s) (hw : w < cfg.workers)
    (hok : s.keepsInHand cfg (.worker w .abort) = true) (hpiped : Piped False s')
    (hs : s.workerStep cfg w .abort = some s') : Effect cfg s s' (fun _ => 0) (fun _ => 0) := by
  have hp := h.phases w hw
  have hpipe := h.piped.phases w
  simp only [workerStep] at hs
  split_ifs at hs
  cases ep : s.phases w with
  | reading t =>
    rw [ep] at hs hp
    rw [← Option.some.inj hs] at hpiped ⊢
    have hreach : s.reached w = t.absOffset := by rw [reached, ep]; rfl
    exact h.setError _ hpiped (by rw [ep]; rfl) (by rw [hreach]; exact hp)
  | pipelining t f | draining t f retry =>
    rw [ep] at hs hp hpipe
    rw [← Option.some.inj hs] at hpiped ⊢
    simp only [keepsInHand, ep, Bool.not_eq_true'] at hok
    have hreach : s.reached w = t.absOffset := by rw [reached, ep]; rfl
    exact h.setError _ hpiped (by rw [ep]; rfl) (PipeOk.published hpipe hreach hp.1 hok).2
  | _ =>
    rw [ep] at hs
    cases hs

/-- A worker finishes a lease that it has received to its end. -/
theorem Tracked.finish (h : Tracked cfg s) (hw : w < cfg.workers)
    (hok : s.keepsInHand cfg (.worker w .finish) = true) (hpiped : Piped False s')
    (hs : s.workerStep cfg w .finish = some s') : Effect cfg s s' (fun _ => 0) (fun _ => 0) := by
  have hp := h.phases w hw
  simp only [workerStep] at hs
  cases ep : s.phases w with
  | closing t through =>
    rw [ep] at hs hp
    rw [← Option.some.inj hs] at hpiped ⊢
    have ht : Tracks s w t.lease through through := hp
    simp only [keepsInHand, closesLease, ep, Option.all_eq_true, decide_eq_true_eq] at hok
    refine h.setPhase (p := .settling t.lease (successEnding _)) hpiped (by rw [ep]; rfl) rfl
      (.success ht fun l hl => ?_) ?_
    · have hend := (ht.live l hl).2.2.2
      have hclosed := hok l hl
      omega
    · rw [reached, ep]
      exact ht.startFrom
  | _ =>
    rw [ep] at hs
    cases hs

/-! ### The calls of an ending -/

/-- A second event that moves no byte. -/
theorem Effect.andMove {s₁ : SegmentedState} {credited : ℕ → ℕ}
    (h : Effect cfg s s₁ (fun _ => 0) credited)
    (h' : Effect cfg s₁ s' (fun _ => 0) (fun _ => 0)) :
    Effect cfg s s' (fun _ => 0) credited where
  tracked := h'.tracked
  inHand := by
    intro v hv
    have hsecond : s'.inHand v = s₁.inHand v := h'.inHand v hv
    rw [hsecond]
    exact h.inHand v hv
  coverage := by
    have hsecond : s'.sched.coverage.card = s₁.sched.coverage.card := by
      simpa using h'.coverage
    rw [hsecond]
    exact h.coverage

/-- The worker performs a call that touches no lease. -/
theorem Tracked.call (h : Tracked cfg s) {lease : SegmentLease} {p : Phase}
    (hledger : s'.sched.ledger = s.sched.ledger) (hpiped : Piped False (s'.setPhase w p))
    (hothers : ∀ v, v ≠ w → s'.phases v = s.phases v ∧ s'.cells v = s.cells v)
    (hold : (s.phases w).lease? = some lease)
    (hnew : ∀ lease', p.lease? = some lease' → lease' = lease)
    (hphase : PhaseTracks s' w p) (hbefore : s.inHand w = 0)
    (hafter : (s'.setPhase w p).inHand w = 0) :
    Effect cfg s (s'.setPhase w p) (fun _ => 0) (fun _ => 0) := by
  have hself : (s'.setPhase w p).phases w = p := Function.update_self _ _ _
  have hwf : s'.sched.ledger.WellFormed := by
    rw [hledger]
    exact h.wellFormed
  refine h.move (w := w) hledger hpiped
    (fun v hv => ⟨(Function.update_of_ne hv _ _).trans (hothers v hv).1, (hothers v hv).2⟩) ?_ ?_
    (by rw [hbefore, hafter])
  · intro lease' hl'
    rw [hself] at hl'
    rw [hnew lease' hl', hold]
  · rw [hself]
    exact hphase.frame (.refl _) hwf rfl fun lease' written _ ht l' hl' => (ht.live l' hl').2.2

theorem Gone.inHand_setPhase {lease : SegmentLease} {p : Phase} (h : Gone s w lease)
    (hp : ∀ lease', p.lease? = some lease' → lease' = lease) : (s.setPhase w p).inHand w = 0 := by
  have hself : (s.setPhase w p).phases w = p := Function.update_self _ _ _
  cases hl : p.lease? with
  | none => exact inHand_of_none (by rw [hself]; exact hl)
  | some lease' =>
    refine inHand_of_dead (s := s.setPhase w p) (by rw [hself]; exact hl) ?_
    rw [hp lease' hl]
    exact h.dead

theorem Whole.inHand_settling {lease : SegmentLease} {todo : List Settle} (h : Whole s w lease) :
    (s.setPhase w (.settling lease todo)).inHand w = 0 := by
  have hself : (s.setPhase w (.settling lease todo)).phases w = .settling lease todo :=
    Function.update_self _ _ _
  have hwhole : Whole (s.setPhase w (.settling lease todo)) w lease := ⟨h.inUse, h.live, h.cell⟩
  refine hwhole.inHand (by rw [hself]; rfl) ?_
  rw [reached, hself]
  rfl

theorem Whole.clearCell {lease : SegmentLease} (h : Whole s w lease) :
    Whole (s.setCell w none) w lease := by
  refine ⟨h.inUse, h.live, fun r hr => ?_⟩
  have hnone : (s.setCell w none).cells w = none := Function.update_self _ _ _
  rw [hnone] at hr
  cases hr

theorem Gone.clearCell {lease : SegmentLease} (h : Gone s w lease) :
    Gone (s.setCell w none) w lease := by
  refine ⟨h.inUse, h.dead, fun r hr => ?_⟩
  have hnone : (s.setCell w none).cells w = none := Function.update_self _ _ _
  rw [hnone] at hr
  cases hr

/-- The next call of an ending, after a reconciliation. -/
theorem Tracked.reconcileCall (h : Tracked cfg s) {lease : SegmentLease}
    {todo rest : List Settle} (hphase : s.phases w = .settling lease todo)
    (hpiped : Piped False ((s.reconcile cfg.workers).setPhase w (.settling lease rest)))
    (hending : Ending (s.reconcile cfg.workers) w lease rest) :
    Effect cfg s ((s.reconcile cfg.workers).setPhase w (.settling lease rest)) (fun _ => 0)
      (fun v => (s.sched.absorbCell (s.cells v)).1) := by
  refine h.reconcile.andMove (h.reconcile.tracked.setPhase (p := .settling lease rest) hpiped ?_
    rfl hending ?_)
  · show (s.phases w).lease? = some lease
    rw [hphase]
    rfl
  · show s.startFrom w lease = s.reachedIn w (s.phases w)
    rw [hphase]
    rfl

/-- A reconciliation at the end of a body absorbs the whole lease. -/
theorem Tracked.whole_reconcile (h : Tracked cfg s) (hw : w < cfg.workers) {lease : SegmentLease}
    {n : ℕ} (hlease : (s.phases w).lease? = some lease) (ht : Tracks s w lease n n)
    (hend : ∀ l, s.sched.active.get? lease.id = some l → n = l.stop + 1) :
    Whole (s.reconcile cfg.workers) w lease := by
  have hadv := Ledger.advances_of_steps h.wellFormed
    (s.sched.absorbWorkerProgress_steps ((List.range cfg.workers).map s.cells))
  have hwhole : ∀ l', (s.reconcile cfg.workers).sched.active.get? lease.id = some l' →
      l'.nextOffset = n ∧ n = l'.stop + 1 := by
    intro l' hl'
    obtain ⟨hnext, hle⟩ := h.absorbed hw hlease ht hl'
    obtain ⟨l, hl, -, -, hstop⟩ := hadv.lease ht.inUse hl'
    have := hend l hl
    exact ⟨hnext, by omega⟩
  refine ⟨ht.inUse.trans_le hadv.nextLease_le, fun l' hl' => ?_, fun r hr => ?_⟩
  · obtain ⟨l, hl, hgen, hnext, -⟩ := hadv.lease ht.inUse hl'
    obtain ⟨hlgen, hlow, -⟩ := ht.live l hl
    exact ⟨hgen.trans hlgen, hlow.trans hnext, (hwhole l' hl').1.trans (hwhole l' hl').2⟩
  · obtain ⟨hnone, -⟩ | ⟨r', hr', hid, hgen, hwritten⟩ := ht.cell
    · rw [show s.cells w = some r from hr] at hnone
      cases hnone
    · rw [show s.cells w = some r from hr] at hr'
      cases hr'
      exact ⟨hid, hgen, fun l' hl' => hwritten.trans (hwhole l' hl').2⟩

/-- A new generation takes every lease; nothing may be in hand. -/
theorem Tracked.bump (h : Tracked cfg s) {lease : SegmentLease} {n : ℕ} {e : DownloadError}
    (hlease : (s.phases w).lease? = some lease) (ht : Tracks s w lease n n)
    (hzero : ∀ v < cfg.workers, s.inHand v = 0)
    (hpiped : Piped False ({ s with sched := s.sched.bumpGeneration }.setPhase w
      (.settling lease [.install e]))) :
    Effect cfg s ({ s with sched := s.sched.bumpGeneration }.setPhase w
      (.settling lease [.install e])) (fun _ => 0) (fun _ => 0) := by
  have hself : ({ s with sched := s.sched.bumpGeneration }.setPhase w
      (.settling lease [.install e])).phases w = .settling lease [.install e] :=
    Function.update_self _ _ _
  have hnext := SegmentScheduler.steps_nextLease_le s.sched.bumpGeneration_ledger
  have hgone : Gone ({ s with sched := s.sched.bumpGeneration }.setPhase w
      (.settling lease [.install e])) w lease := by
    refine ⟨ht.inUse.trans_le hnext, SegmentScheduler.get?_bumpGeneration _, fun r hr => ?_⟩
    obtain ⟨hnone, -⟩ | ⟨r', hr', hid, -⟩ := ht.cell
    · rw [show s.cells w = some r from hr] at hnone
      cases hnone
    · rw [show s.cells w = some r from hr] at hr'
      cases hr'
      exact hid
  refine ⟨?_, ?_, ?_⟩
  · refine h.update (w := w) s.sched.bumpGeneration_ledger hpiped
      (fun v hv => ⟨Function.update_of_ne hv _ _, rfl⟩) ?_ ?_ ?_
    · intro v hv hne lease' written hl' htv l' hl
      have hdead : s.sched.bumpGeneration.active.get? lease'.id = none :=
        SegmentScheduler.get?_bumpGeneration _
      cases hdead.symm.trans hl
    · intro lease' hl'
      rw [hself] at hl'
      cases hl'
      exact .inl hlease
    · rw [hself]
      exact .changed hgone
  · intro v hv
    rw [hzero v hv]
    cases hl : (({ s with sched := s.sched.bumpGeneration }.setPhase w
        (.settling lease [.install e])).phases v).lease? with
    | none => exact inHand_of_none hl
    | some lease' => exact inHand_of_dead hl (SegmentScheduler.get?_bumpGeneration _)
  · show s.sched.bumpGeneration.coverage.card = _
    rw [SegmentScheduler.coverage_bumpGeneration h.wellFormed]
    simp

/-- The last call leaves the worker without a lease. -/
theorem Tracked.leave (h : Tracked cfg s) {lease : SegmentLease} {p : Phase}
    (hphase : (s.phases w).lease? = some lease) (hgone : Gone s w lease)
    (hsched : s'.sched = s.sched) (hphases : s'.phases = s.phases) (hcells : s'.cells = s.cells)
    (hpiped : Piped False (s'.setPhase w p))
    (hp : p = .exited ∨ p = .idle ∧ s.cells w = none) :
    Effect cfg s (s'.setPhase w p) (fun _ => 0) (fun _ => 0) := by
  have hgone' : Gone s' w lease := by
    refine ⟨by rw [hsched]; exact hgone.inUse, by rw [hsched]; exact hgone.dead, ?_⟩
    rw [hcells]
    exact hgone.cell
  have hnone : ∀ lease', p.lease? = some lease' → lease' = lease := by
    intro lease' hl
    obtain rfl | ⟨rfl, -⟩ := hp
    · cases hl
    · cases hl
  refine h.call (by rw [hsched]) hpiped (fun v _ => ⟨by rw [hphases], by rw [hcells]⟩) hphase hnone
    ?_ (inHand_of_dead hphase hgone.dead) (hgone'.inHand_setPhase hnone)
  obtain rfl | ⟨rfl, hcell⟩ := hp
  · intro r hr
    rw [hgone'.cell r hr]
    exact ⟨hgone'.inUse, hgone'.dead⟩
  · show s'.cells w = none
    rw [hcells]
    exact hcell

/-- A report for a lease that is absorbed to its end changes no lease. -/
theorem Tracked.reportCall (h : Tracked cfg s) {lease : SegmentLease} {through : ℕ}
    {rest : List Settle} (hlease : (s.phases w).lease? = some lease)
    (hreach : s.reached w = s.startFrom w lease) (hwhole : Whole s w lease)
    (hending : ∀ s₁ : SegmentedState, Whole s₁ w lease → Ending s₁ w lease rest)
    (hpiped : Piped False ({ s with
      sched := (s.sched.reportProgress lease.id lease.generation through).2 }.setPhase w
        (.settling lease rest))) :
    Effect cfg s ({ s with
      sched := (s.sched.reportProgress lease.id lease.generation through).2 }.setPhase w
        (.settling lease rest)) (fun _ => 0) (fun _ => 0) := by
  have hledger : (s.sched.reportProgress lease.id lease.generation through).2.ledger =
      s.sched.ledger :=
    SegmentScheduler.reportProgress_whole fun l hl => (hwhole.live l hl).2.2
  have hwhole' : Whole { s with
      sched := (s.sched.reportProgress lease.id lease.generation through).2 } w lease := by
    refine hwhole.frame ?_ ?_ rfl
    · rw [hledger]
      exact .refl _
    · rw [hledger]
      exact h.wellFormed
  refine h.call (p := .settling lease rest) hledger hpiped (fun v _ => ⟨rfl, rfl⟩) hlease ?_
    (hending _ hwhole') (hwhole.inHand hlease hreach) hwhole'.inHand_settling
  intro lease' hl
  cases hl
  rfl

/-- The worker clears its cell, and nothing was in hand. -/
theorem Tracked.clearCall (h : Tracked cfg s) {lease : SegmentLease} {p : Phase}
    (hlease : (s.phases w).lease? = some lease) (hzero : s.inHand w = 0)
    (hp : ∀ lease', p.lease? = some lease' → lease' = lease)
    (hphase : PhaseTracks (s.setCell w none) w p)
    (hafter : ((s.setCell w none).setPhase w p).inHand w = 0)
    (hpiped : Piped False ((s.setCell w none).setPhase w p)) :
    Effect cfg s ((s.setCell w none).setPhase w p) (fun _ => 0) (fun _ => 0) :=
  h.call rfl hpiped (fun _ hv => ⟨rfl, Function.update_of_ne hv _ _⟩) hlease hp hphase hzero hafter

/-- The worker ends its lease and nothing was in hand. -/
theorem Tracked.endCall (h : Tracked cfg s) (hw : w < cfg.workers) {lease : SegmentLease}
    {rest : List Settle} (hlease : (s.phases w).lease? = some lease) (hzero : s.inHand w = 0)
    (hcell : ∀ r, s.cells w = some r → r.leaseId = lease.id)
    (hinUse : lease.id < s.sched.nextLease)
    (hsteps : Relation.ReflTransGen Ledger.Step s.sched.ledger s'.sched.ledger)
    (hactive : s'.sched.active = s.sched.active.erase lease.id)
    (hcoverage : s'.sched.coverage = s.sched.coverage) (hphases : s'.phases = s.phases)
    (hcells : s'.cells = s.cells)
    (hending : ∀ s₁ : SegmentedState, Gone s₁ w lease → Ending s₁ w lease rest)
    (hpiped : Piped False (s'.setPhase w (.settling lease rest))) :
    Effect cfg s (s'.setPhase w (.settling lease rest)) (fun _ => 0) (fun _ => 0) := by
  have hself : (s'.setPhase w (.settling lease rest)).phases w = .settling lease rest :=
    Function.update_self _ _ _
  refine h.dissolve hw hlease hzero hsteps hactive hcoverage hpiped (fun v hv => ⟨?_, ?_⟩)
    (by rw [hself]; rfl) ?_
  · show Function.update s'.phases w _ v = s.phases v
    rw [Function.update_of_ne hv, hphases]
  · show s'.cells v = s.cells v
    rw [hcells]
  · rw [hself]
    refine hending _ ⟨?_, ?_, ?_⟩
    · exact hinUse.trans_le (SegmentScheduler.steps_nextLease_le hsteps)
    · show s'.sched.active.get? lease.id = none
      rw [hactive]
      exact SortedMap.get?_erase_self _ _
    · show ∀ r, s'.cells w = some r → r.leaseId = lease.id
      rw [hcells]
      exact hcell

/-- What was published and absorbed is not in hand. -/
theorem Tracks.inHand_of_absorbed {lease : SegmentLease} {n : ℕ} (ht : Tracks s w lease n n)
    (hlease : (s.phases w).lease? = some lease) (hreach : s.reached w = s.startFrom w lease)
    (habs : ∀ l, s.sched.active.get? lease.id = some l → l.nextOffset = n) : s.inHand w = 0 := by
  cases hl : s.sched.active.get? lease.id with
  | none => exact inHand_of_dead hlease hl
  | some l =>
    rw [inHand_of_live hlease hl, hreach, ht.startFrom, habs l hl]
    exact Nat.sub_self n

/-- The last call of an ending with an error. -/
theorem Tracked.lastCall (h : Tracked cfg s) {lease : SegmentLease} {call : Settle} {now : ℕ}
    (hlease : (s.phases w).lease? = some lease) (hgone : Gone s w lease)
    (hfinal : call.isFinal = true)
    (hcell : s.cells w = none ∨ ∃ e, call = .install e)
    (hpiped : Piped False ((s.performSettle cfg w lease now call).setPhase w
      (s.afterSettle cfg w call))) :
    Effect cfg s ((s.performSettle cfg w lease now call).setPhase w (s.afterSettle cfg w call))
      (fun _ => 0) (fun _ => 0) := by
  cases call with
  | decide e =>
    have hnone : s.cells w = none := by
      cases hcell with
      | inl hnone => exact hnone
      | inr hinstall =>
        obtain ⟨e', hno⟩ := hinstall
        cases hno
    refine h.leave hlease hgone ?_ ?_ ?_ hpiped ?_
    · simp only [performSettle]
      split <;> rfl
    · simp only [performSettle]
      split <;> rfl
    · simp only [performSettle]
      split <;> rfl
    · simp only [afterSettle]
      split_ifs
      · exact .inr ⟨rfl, hnone⟩
      · exact .inl rfl
  | install e => exact h.leave hlease hgone rfl rfl rfl hpiped (.inl rfl)
  | _ => cases hfinal

/-- **What is settled is credited**: the bytes that went through, once. -/
theorem Tracked.settle (h : Tracked cfg s) (hw : w < cfg.workers) {now : ℕ}
    (hok : s.keepsInHand cfg (.worker w (.settle now)) = true) (hpiped : Piped False s')
    (hs : s.workerStep cfg w (.settle now) = some s') :
    Effect cfg s s' (fun _ => 0) (s.credits (.worker w (.settle now))) := by
  have hp := h.phases w hw
  simp only [workerStep] at hs
  cases ep : s.phases w with
  | settling lease todo =>
    rw [ep] at hs hp
    have hlease : (s.phases w).lease? = some lease := by rw [ep]; rfl
    have hreach : s.reached w = s.startFrom w lease := by rw [reached, ep]; rfl
    have hcredit : ∀ {rest : List Settle}, todo = .reconcile :: rest →
        s.credits (.worker w (.settle now)) = fun v => (s.sched.absorbCell (s.cells v)).1 := by
      intro rest htodo
      funext v
      simp only [credits, reconciles, ep, htodo, if_true]
    have hnothing : (∀ rest, todo ≠ .reconcile :: rest) →
        s.credits (.worker w (.settle now)) = fun _ => 0 := by
      intro hne
      funext v
      have hno : s.reconciles (.worker w (.settle now)) = false := by
        simp only [reconciles, ep]
        split
        · next rest hsettling =>
          cases hsettling
          exact absurd rfl (hne _)
        · rfl
      rw [credits, hno]
      rfl
    cases (hp : Ending s w lease todo) with
    | success ht hend =>
      rw [hcredit rfl]
      rw [← Option.some.inj hs] at hpiped ⊢
      exact h.reconcileCall ep hpiped (.report (h.whole_reconcile hw hlease ht hend))
    | again hwhole =>
      rw [hcredit rfl]
      rw [← Option.some.inj hs] at hpiped ⊢
      refine h.reconcileCall ep hpiped (.complete ?_)
      have hsteps := s.sched.absorbWorkerProgress_steps ((List.range cfg.workers).map s.cells)
      exact hwhole.frame (Ledger.advances_of_steps h.wellFormed hsteps)
        (h.wellFormed.steps hsteps) rfl
    | error ht hlast =>
      rw [hcredit rfl]
      rw [← Option.some.inj hs] at hpiped ⊢
      refine h.reconcileCall ep hpiped ?_
      have hframe := h.reconcile.tracked.phases w hw
      rw [show (s.reconcile cfg.workers).phases w = s.phases w from rfl, ep] at hframe
      cases (hframe : Ending (s.reconcile cfg.workers) w lease _) with
      | error ht' hlast' =>
        refine .fail ht' (fun l' hl' => ?_) hlast
        rw [(h.absorbed hw hlease ht hl').1, ← ht.startFrom, ← ht'.startFrom]
        rfl
    | report hwhole =>
      rw [hnothing fun rest hno => by cases hno]
      rw [← Option.some.inj hs] at hpiped ⊢
      exact h.reportCall hlease hreach hwhole (fun _ hw' => .clear hw') hpiped
    | clear hwhole =>
      rw [hnothing fun rest hno => by cases hno]
      rw [← Option.some.inj hs] at hpiped ⊢
      refine h.clearCall (p := .settling lease _) hlease (hwhole.inHand hlease hreach) ?_
        (.again hwhole.clearCell) hwhole.clearCell.inHand_settling hpiped
      intro lease' hl
      cases hl
      rfl
    | complete hwhole =>
      rw [hnothing fun rest hno => by cases hno]
      rw [← Option.some.inj hs] at hpiped ⊢
      refine h.endCall hw hlease (hwhole.inHand hlease hreach) (fun r hr => (hwhole.cell r hr).1)
        hwhole.inUse (s.sched.apply_steps (.complete lease.id lease.generation now)) ?_ ?_ rfl rfl
        (fun _ hgone => .cleared hgone)
        hpiped
      · exact SegmentScheduler.complete_active now fun l hl => (hwhole.live l hl).1
      · exact SegmentScheduler.coverage_complete h.wellFormed fun l hl => (hwhole.live l hl).2.2
    | cleared hgone =>
      rw [hnothing fun rest hno => by cases hno]
      rw [← Option.some.inj hs] at hpiped ⊢
      refine h.clearCall (p := .idle) hlease (inHand_of_dead hlease hgone.dead)
        (fun _ hl => by cases hl) (Function.update_self _ _ _) ?_ hpiped
      exact hgone.clearCell.inHand_setPhase fun _ hl => by cases hl
    | fail ht habs hlast =>
      rw [hnothing fun rest hno => by cases hno]
      rw [← Option.some.inj hs] at hpiped ⊢
      refine h.endCall hw hlease (ht.inHand_of_absorbed hlease hreach habs)
        (fun r hr => (ht.cell_eq hr).1) ht.inUse
        (s.sched.apply_steps (.fail lease.id lease.generation now)) ?_ ?_ rfl rfl
        (fun _ hgone => .failed hgone hlast) hpiped
      · exact SegmentScheduler.fail_active now fun l hl => (ht.live l hl).1
      · exact SegmentScheduler.coverage_fail h.wellFormed _ _ _
    | @failed last hgone hlast =>
      rw [hnothing fun rest hno => by cases hno]
      rw [← Option.some.inj hs] at hpiped ⊢
      have hown : ∀ lease', (Phase.settling lease [last]).lease? = some lease' →
          lease' = lease := by
        intro lease' hl
        cases hl
        rfl
      refine h.clearCall (p := .settling lease _) hlease (inHand_of_dead hlease hgone.dead) hown
        (.last hgone.clearCell (Function.update_self _ _ _) hlast) ?_ hpiped
      exact hgone.clearCell.inHand_setPhase hown
    | last hgone hcell hlast =>
      rw [hnothing fun rest hno => by cases hno; cases hlast]
      rw [← Option.some.inj hs] at hpiped ⊢
      exact h.lastCall hlease hgone hlast (.inl hcell) hpiped
    | bump ht =>
      rw [hnothing fun rest hno => by cases hno]
      rw [← Option.some.inj hs] at hpiped ⊢
      simp only [keepsInHand, ep, List.all_eq_true, List.mem_range, decide_eq_true_eq] at hok
      exact h.bump hlease ht hok hpiped
    | changed hgone =>
      rw [hnothing fun rest hno => by cases hno]
      rw [← Option.some.inj hs] at hpiped ⊢
      exact h.lastCall hlease hgone rfl (.inr ⟨_, rfl⟩) hpiped
  | _ =>
    rw [ep] at hs
    cases hs

/-- **Every event adds to a worker's hand what it takes, and takes from it what
it credits.** -/
theorem Tracked.step (h : Tracked cfg s) {e : SegmentedEvent}
    (hok : s.keepsInHand cfg e = true) (hs : segmentedStep cfg s e = some s') :
    Effect cfg s s' (s.takes e) (s.credits e) := by
  have hpiped : Piped False s' := h.piped.step (fun hno => hno.elim) hs
  cases e with
  | reconcile =>
    rw [← Option.some.inj hs]
    exact h.reconcile
  | cancel =>
    rw [← Option.some.inj hs] at hpiped ⊢
    refine ⟨⟨h.wellFormed, h.total, hpiped, h.distinct, fun v hv => (h.phases v hv).frame (.refl _)
      h.wellFormed rfl fun _ _ _ ht l' hl' => (ht.live l' hl').2.2⟩, fun _ _ => rfl, ?_⟩
    show s.sched.coverage.card =
      s.sched.coverage.card + ((List.range cfg.workers).map fun _ => 0).sum
    simp
  | worker w e =>
    simp only [segmentedStep] at hs
    split_ifs at hs with hw
    cases e with
    | acquire divisor now => exact h.acquire hw hpiped hs
    | split leaseId now => exact h.split hw hok hs
    | exit => exact h.exit hw hpiped hs
    | respond status headers =>
      simp only [workerStep] at hs
      split at hs
      · next lease hphase =>
        rw [← Option.some.inj hs] at hpiped ⊢
        exact h.respond hw hphase hpiped
      · cases hs
    | requestFault e => exact h.requestFault hw hpiped hs
    | refresh => exact h.refresh hw hpiped hs
    | receive len => exact h.receive hw hok hpiped hs
    | writeAck failure =>
      have hnone : failure = none := Option.isNone_iff_eq_none.mp hok
      rw [hnone] at hs
      exact h.writeAck hw hpiped hs
    | execute index outcome => exact h.execute hw hpiped hs
    | settleCompletion =>
      have hp := h.phases w hw
      have hpipe := h.piped.phases w
      have hpipe' := hpiped.phases w
      simp only [workerStep] at hs
      cases ep : s.phases w with
      | pipelining t f =>
        rw [ep] at hs hp hpipe
        refine h.settleCompletion hpiped (by rw [ep]; rfl) (by rw [reached, ep]; rfl) hpipe hp.1
          hp.2 ?_ ?_ ?_ hs
        · exact fun f' => ⟨rfl, fun _ => rfl, fun _ ht' hgen' => ⟨ht', hgen'⟩⟩
        · intro f' hf'
          rw [hf'] at hpipe'
          exact hpipe'
        · intro c rest hc
          simpa [keepsInHand, ep, hc, or_assoc] using hok
      | draining t f retry =>
        rw [ep] at hs hp hpipe
        refine h.settleCompletion hpiped (by rw [ep]; rfl) (by rw [reached, ep]; rfl) hpipe hp.1
          hp.2 ?_ ?_ ?_ hs
        · exact fun f' => ⟨rfl, fun _ => rfl, fun _ ht' hgen' => ⟨ht', hgen'⟩⟩
        · intro f' hf'
          rw [hf'] at hpipe'
          exact hpipe'
        · intro c rest hc
          simpa [keepsInHand, ep, hc, or_assoc] using hok
      | _ =>
        rw [ep] at hs
        cases hs
    | endOfBody => exact h.endOfBody hw hpiped hs
    | bodyFault e => exact h.bodyFault hw hok hpiped hs
    | drained => exact h.drained hw hpiped hs
    | abort => exact h.abort hw hok hpiped hs
    | finish => exact h.finish hw hok hpiped hs
    | settle now => exact h.settle hw hok hpiped hs

theorem tracked_init (cfg : SegmentedConfig) : Tracked cfg (segmentedInit cfg) where
  wellFormed := SegmentScheduler.initialized_wellFormed _ _ _
  total := rfl
  piped := piped_init cfg
  distinct := fun _ _ _ _ _ _ _ hl => by cases hl
  phases := fun _ _ => rfl

end SegmentedState

end KDown
