/-
KDown/SegmentedAccounting.lean

The byte counters of both transfer modes (job/controller.rs, job/segmented.rs,
metrics/counters.rs).

The identity between the four counters (`AccountingIdentity`): every payload
byte a body delivered is in `network` once, `completed` and `reused` together
are the coverage, and `wasted` is what was delivered, is not covered and is no
longer in a worker's hand.

In a segmented job a worker charges a chunk when it arrives: all of it to
`network`, the part past its stop boundary to `wasted`.  A chunk that lies past
the boundary as a whole is charged to `wasted` only.  What the reconciliations
credit is charged to `completed`, worker by worker, so the identity follows from
what every event does to the bytes in hand (`Tracked.step`).

`transfer_accounting` is the result for the runs of either mode in which no
byte is lost or counted twice; `kept_prefix_counted_wasted` is a run outside it.
-/
import KDown.TransferAccounting
import KDown.LeaseTrackingSteps

namespace KDown

/-- What the counters say when `received` payload bytes were delivered, of which
`inHand` are still on their way, and `covered` bytes are covered. -/
structure AccountingIdentity (p : ProgressSnapshot) (received covered inHand : ℕ) : Prop where
  network : p.networkBytes = received
  coverage : p.completedBytes + p.reusedBytes = covered
  wasted : p.wastedBytes + (covered - p.reusedBytes) + inHand = received
  consistent : p.accountingConsistent = true

/-- The identity from the balance of the counters. -/
theorem AccountingIdentity.of_balance {p : ProgressSnapshot} {received covered inHand : ℕ}
    (hnetwork : p.networkBytes = received) (hcovered : p.completedBytes + p.reusedBytes = covered)
    (hbalance : received = p.wastedBytes + p.completedBytes + inHand) :
    AccountingIdentity p received covered inHand := by
  refine ⟨hnetwork, hcovered, by omega, ?_⟩
  simp only [ProgressSnapshot.accountingConsistent, Bool.and_eq_true, decide_eq_true_eq]
  omega

/-! ### The account of a segmented job -/

/-- The job with its counters. -/
structure SegmentedAccount where
  job : SegmentedState
  counters : ℕ → WorkerCounters
  /-- Payload bytes the bodies of each worker have delivered. -/
  received : ℕ → ℕ

namespace SegmentedAccount

variable (cfg : SegmentedConfig)

/-- Change the counters of one worker. -/
def count (a : SegmentedAccount) (w : ℕ) (f : WorkerCounters → WorkerCounters) :
    SegmentedAccount :=
  { a with counters := Function.update a.counters w (f (a.counters w)) }

/-- Credit the deltas of a reconciliation to their workers. -/
def credit (a : SegmentedAccount) : SegmentedAccount :=
  let deltas := (a.job.sched.absorbWorkerProgress ((List.range cfg.workers).map a.job.cells)).1
  { a with counters := fun v => (a.counters v).addCompleted (deltas[v]?.getD 0) }

/-- A chunk of an accepted body. -/
def chunk (a : SegmentedAccount) (w : ℕ) (t : Transfer) (len : ℕ) : SegmentedAccount :=
  let a := { a with received := Function.update a.received w (a.received w + len) }
  -- what the body limit refuses is not charged
  if !limitAccepts (some t.requested) t.delivered len then a
  else
    let a := a.count w (·.addWasted (len - t.ownedLen len))
    -- a chunk past the boundary ends the body before it is charged to the network
    if t.ownedLen len = 0 then a else a.count w (·.addNetwork len)

/-- What an event charges. -/
def charge (a : SegmentedAccount) : SegmentedEvent → SegmentedAccount
  | .reconcile => a.credit cfg
  | .worker w (.settle _) =>
      match a.job.phases w with
      | .settling _ (.reconcile :: _) => a.credit cfg
      | _ => a
  | .worker w (.receive len) =>
      match a.job.phases w with
      | .reading t => a.chunk w t len
      | .pipelining t _ => a.chunk w t len
      | _ => a
  | .worker w (.bodyFault e) =>
      match a.job.phases w with
      | .reading t =>
          match workerErrorFromFailure cfg.retry e with
          | .retryable _ => a.count w (·.addWasted (t.absOffset - a.job.startFrom w t.lease))
          | _ => a
      | _ => a
  | .worker w .drained =>
      match a.job.phases w with
      | .draining _ f (some _) =>
          if f.hasOutstanding then a
          else a.count w (·.addWasted (f.receivedHighWater - f.acknowledgedThrough))
      | _ => a
  | _ => a

/-- One event of the job, with its charges. -/
def step (a : SegmentedAccount) (e : SegmentedEvent) : Option SegmentedAccount :=
  (segmentedStep cfg a.job e).map fun s => { a.charge cfg e with job := s }

/-- The account of a job that starts: what was admitted is reused. -/
def init : SegmentedAccount where
  job := segmentedInit cfg
  counters := Function.update (fun _ => .zero) 0
    (WorkerCounters.zero.addReused (completedBytes cfg.admitted))
  received := fun _ => 0

/-- The sum over all workers. -/
def snapshot (a : SegmentedAccount) : ProgressSnapshot :=
  foldCounters ((List.range cfg.workers).map a.counters)

/-- All payload bytes delivered. -/
def totalReceived (a : SegmentedAccount) : ℕ := ((List.range cfg.workers).map a.received).sum

/-- All bytes in the workers' hands. -/
def totalInHand (a : SegmentedAccount) : ℕ := ((List.range cfg.workers).map a.job.inHand).sum

/-! ### What an event charges -/

variable {cfg} {a a' : SegmentedAccount}

/-- The payload bytes an event delivers to a worker. -/
def arrivals (s : SegmentedState) : SegmentedEvent → ℕ → ℕ
  | .worker w (.receive len), v =>
      if v = w then
        match s.phases w with
        | .reading _ | .pipelining _ _ => len
        | _ => 0
      else 0
  | _, _ => 0

/-- The charges of an event, as far as the identity needs them. -/
structure Charges (cfg : SegmentedConfig) (a : SegmentedAccount) (e : SegmentedEvent) (v : ℕ) :
    Prop where
  received : (a.charge cfg e).received v = a.received v + arrivals a.job e v
  network : ((a.charge cfg e).counters v).networkBytes =
    (a.counters v).networkBytes + arrivals a.job e v
  wasted : ((a.charge cfg e).counters v).wastedBytes + a.job.takes e v =
    (a.counters v).wastedBytes + arrivals a.job e v
  completed : ((a.charge cfg e).counters v).completedBytes =
    (a.counters v).completedBytes + a.job.credits e v
  reused : ((a.charge cfg e).counters v).reusedBytes = (a.counters v).reusedBytes

/-- A worker's deltas go to its own counters. -/
theorem credit_spec (h : a.job.Tracked cfg) {v : ℕ} (hv : v < cfg.workers) :
    (a.credit cfg).counters v =
      (a.counters v).addCompleted (a.job.sched.absorbCell (a.job.cells v)).1 := by
  obtain ⟨hdeltas, -⟩ :=
    SegmentScheduler.absorbWorkerProgress_own List.nodup_range h.ownCells
  show (a.counters v).addCompleted (_[v]?.getD 0) = _
  rw [hdeltas, List.getElem?_map, List.getElem?_range hv]
  rfl

/-- An event that charges nothing. -/
theorem charges_none {e : SegmentedEvent} {v : ℕ} (hcharge : a.charge cfg e = a)
    (harrive : arrivals a.job e v = 0) (htake : a.job.takes e v = 0)
    (hcredit : a.job.credits e v = 0) : Charges cfg a e v := by
  constructor
  · rw [hcharge, harrive]
    rfl
  · rw [hcharge, harrive]
    rfl
  · rw [hcharge, harrive, htake]
  · rw [hcharge, hcredit]
    rfl
  · rw [hcharge]

/-- An event that charges zero bytes as wasted. -/
theorem count_wasted_zero {w n : ℕ} (hn : n = 0) : a.count w (·.addWasted n) = a := by
  rw [hn, count]
  have hsame : Function.update a.counters w ((a.counters w).addWasted 0) = a.counters := by
    funext v
    rw [Function.update_apply]
    split_ifs with hv
    · rw [hv]
      rfl
    · rfl
  rw [hsame]

/-- A step without a chunk charges what it credits. -/
theorem charges_credit (h : a.job.Tracked cfg) {e : SegmentedEvent} {v : ℕ}
    (hv : v < cfg.workers) (hcharge : a.charge cfg e = a.credit cfg)
    (harrive : arrivals a.job e v = 0) (htake : a.job.takes e v = 0)
    (hreconcile : a.job.reconciles e = true) : Charges cfg a e v := by
  have hspec := credit_spec h hv
  have hcredit : a.job.credits e v = (a.job.sched.absorbCell (a.job.cells v)).1 := by
    rw [SegmentedState.credits, if_pos hreconcile]
  constructor
  · rw [hcharge, harrive]
    rfl
  · rw [hcharge, harrive, hspec]
    rfl
  · rw [hcharge, harrive, htake, hspec]
    rfl
  · rw [hcharge, hcredit, hspec]
    rfl
  · rw [hcharge, hspec]
    rfl

theorem ownedLen_le_len (t : Transfer) (len : ℕ) : t.ownedLen len ≤ len := by
  rw [Transfer.ownedLen]
  split_ifs
  · exact Nat.zero_le _
  · exact min_le_right _ _

/-- A chunk that is empty or owned in part is charged as a whole. -/
theorem chunk_spec {w len : ℕ} {t : Transfer}
    (hlimit : limitAccepts (some t.requested) t.delivered len = true)
    (hok : len = 0 ∨ t.ownedLen len ≠ 0) (v : ℕ) :
    (a.chunk w t len).received v = a.received v + (if v = w then len else 0) ∧
      (a.chunk w t len).counters v =
        if v = w then ((a.counters w).addWasted (len - t.ownedLen len)).addNetwork len
        else a.counters v := by
  unfold chunk
  simp only [hlimit, Bool.not_true, Bool.false_eq_true, if_false]
  by_cases hzero : t.ownedLen len = 0
  · have hlen : len = 0 := hok.resolve_right fun hne => hne hzero
    rw [if_pos hzero]
    simp only [count, Function.update_apply, hlen]
    split_ifs with hv
    · rw [hv]
      exact ⟨rfl, rfl⟩
    · exact ⟨rfl, rfl⟩
  · rw [if_neg hzero]
    simp only [count, Function.update_apply, if_true]
    split_ifs with hv
    · rw [hv]
      exact ⟨rfl, rfl⟩
    · exact ⟨rfl, rfl⟩

/-- **A chunk is charged once**, as owned or as wasted. -/
theorem charges_chunk {w len : ℕ} {t : Transfer} {v : ℕ}
    (hcharge : a.charge cfg (.worker w (.receive len)) = a.chunk w t len)
    (harrive : arrivals a.job (.worker w (.receive len)) v = if v = w then len else 0)
    (htake : a.job.takes (.worker w (.receive len)) v = if v = w then t.ownedLen len else 0)
    (hlimit : limitAccepts (some t.requested) t.delivered len = true)
    (hok : len = 0 ∨ t.ownedLen len ≠ 0) : Charges cfg a (.worker w (.receive len)) v := by
  obtain ⟨hreceived, hcounters⟩ := a.chunk_spec (w := w) hlimit hok v
  have hle := ownedLen_le_len t len
  by_cases hv : v = w
  · subst hv
    rw [if_pos rfl] at hreceived hcounters harrive htake
    constructor
    · rw [hcharge, harrive, hreceived]
    · rw [hcharge, harrive, hcounters]
      rfl
    · rw [hcharge, harrive, htake, hcounters]
      show (a.counters v).wastedBytes + (len - t.ownedLen len) + t.ownedLen len = _
      omega
    · rw [hcharge, hcounters]
      rfl
    · rw [hcharge, hcounters]
      rfl
  · rw [if_neg hv] at hreceived hcounters harrive htake
    constructor
    · rw [hcharge, harrive, hreceived]
    · rw [hcharge, harrive, hcounters]
      rfl
    · rw [hcharge, harrive, htake, hcounters]
    · rw [hcharge, hcounters]
      rfl
    · rw [hcharge, hcounters]

theorem reconciles_settle {s : SegmentedState} {w now : ℕ}
    (h : s.reconciles (.worker w (.settle now)) = true) :
    ∃ lease todo, s.phases w = .settling lease (.reconcile :: todo) := by
  simp only [SegmentedState.reconciles] at h
  split at h
  · exact ⟨_, _, ‹_›⟩
  · cases h

/-- **What is charged agrees with what happens to the bytes in hand.** -/
theorem charges (h : a.job.Tracked cfg) {e : SegmentedEvent}
    (hok : a.job.keepsInHand cfg e = true) (hworker : ∀ w e', e = .worker w e' → w < cfg.workers)
    {v : ℕ} (hv : v < cfg.workers) : Charges cfg a e v := by
  cases e with
  | reconcile => exact charges_credit h hv rfl rfl rfl rfl
  | cancel => exact charges_none rfl rfl rfl rfl
  | worker w e =>
    have hw := hworker w e rfl
    have hp := h.phases w hw
    cases e with
    | settle now =>
      by_cases hreconcile : a.job.reconciles (.worker w (.settle now)) = true
      · obtain ⟨lease, todo, hphase⟩ := reconciles_settle hreconcile
        refine charges_credit h hv ?_ rfl rfl hreconcile
        simp only [charge, hphase]
      · refine charges_none ?_ rfl rfl ?_
        · simp only [SegmentedState.reconciles] at hreconcile
          simp only [charge]
          split
          · next hphase =>
            rw [hphase] at hreconcile
            exact absurd rfl hreconcile
          · rfl
        · rw [SegmentedState.credits, if_neg hreconcile]
    | receive len =>
      cases ep : a.job.phases w with
      | reading t | pipelining t f =>
        simp only [SegmentedState.keepsInHand, ep, Bool.and_eq_true, Bool.or_eq_true,
          decide_eq_true_eq, ne_eq] at hok
        obtain ⟨hlimit, hok⟩ := hok
        refine charges_chunk (t := t) ?_ ?_ ?_ hlimit (hok.imp_right fun ho => ho.1)
        · simp only [charge, ep]
        · simp only [arrivals, ep]
        · simp only [SegmentedState.takes, ep]
      | _ =>
        refine charges_none ?_ ?_ ?_ rfl
        · simp only [charge, ep]
        · simp only [arrivals, ep, ite_self]
        · simp only [SegmentedState.takes, ep, ite_self]
    | bodyFault e =>
      refine charges_none ?_ rfl rfl rfl
      simp only [charge]
      split
      · next t hphase =>
        rw [hphase] at hp
        have ht : a.job.Tracks w t.lease t.absOffset t.absOffset := hp
        split
        · -- the lane has written all it received
          rw [ht.startFrom]
          exact count_wasted_zero (Nat.sub_self _)
        · rfl
      · rfl
    | drained =>
      refine charges_none ?_ rfl rfl rfl
      simp only [charge]
      split
      · next t f e hphase =>
        have hpipe := h.piped.phases w
        rw [hphase] at hpipe
        have hpipe : SegmentedState.PipeOk False a.job w t f := hpipe
        split_ifs with hout
        · rfl
        · rw [hpipe.acknowledgedThrough_eq (Bool.eq_false_iff.mpr hout), hpipe.highWater]
          exact count_wasted_zero (Nat.sub_self _)
      · rfl
    | _ => exact charges_none rfl rfl rfl rfl

/-! ### The balance -/

/-- The counters of every worker agree with what it received. -/
structure Balanced (cfg : SegmentedConfig) (a : SegmentedAccount) : Prop where
  tracked : a.job.Tracked cfg
  network : ∀ v < cfg.workers, (a.counters v).networkBytes = a.received v
  balance : ∀ v < cfg.workers,
    a.received v = (a.counters v).wastedBytes + (a.counters v).completedBytes + a.job.inHand v
  coverage : a.job.sched.coverage.card = completedBytes cfg.admitted +
    ((List.range cfg.workers).map fun v => (a.counters v).completedBytes).sum
  reused : ∀ v < cfg.workers,
    (a.counters v).reusedBytes = if v = 0 then completedBytes cfg.admitted else 0

theorem balanced_init (hadmitted : AdmittedOk cfg.totalSize cfg.admitted) :
    Balanced cfg (init cfg) := by
  have hzero : ∀ v, ((init cfg).counters v).networkBytes = 0 ∧
      ((init cfg).counters v).wastedBytes = 0 ∧ ((init cfg).counters v).completedBytes = 0 ∧
      ((init cfg).counters v).reusedBytes = if v = 0 then completedBytes cfg.admitted else 0 := by
    intro v
    simp only [init, Function.update_apply]
    split_ifs
    · exact ⟨rfl, rfl, rfl, Nat.zero_add _⟩
    · exact ⟨rfl, rfl, rfl, rfl⟩
  refine ⟨SegmentedState.tracked_init cfg, fun v _ => (hzero v).1, fun v _ => ?_, ?_,
    fun v _ => (hzero v).2.2.2⟩
  · rw [(hzero v).2.1, (hzero v).2.2.1]
    rfl
  · show (SegmentScheduler.initialized cfg.totalSize cfg.admitted cfg.policy).coverage.card = _
    rw [SegmentScheduler.card_coverage_initialized hadmitted]
    simp [fun v => (hzero v).2.2.1]

/-- **Every event that meets the condition keeps the balance.** -/
theorem Balanced.step (h : Balanced cfg a) {e : SegmentedEvent}
    (hok : a.job.keepsInHand cfg e = true) (hstep : a.step cfg e = some a') :
    Balanced cfg a' := by
  obtain ⟨s', hs, rfl⟩ := Option.map_eq_some_iff.mp hstep
  have heffect := h.tracked.step hok hs
  have hworker : ∀ w e', e = .worker w e' → w < cfg.workers := by
    intro w e' he
    rw [he, segmentedStep] at hs
    by_contra hno
    rw [if_neg hno] at hs
    cases hs
  have hcharges : ∀ v < cfg.workers, Charges cfg a e v :=
    fun v hv => charges h.tracked hok hworker hv
  refine ⟨heffect.tracked, ?_, ?_, ?_, ?_⟩
  · intro v hv
    show ((a.charge cfg e).counters v).networkBytes = (a.charge cfg e).received v
    rw [(hcharges v hv).network, (hcharges v hv).received, h.network v hv]
  · intro v hv
    show (a.charge cfg e).received v = ((a.charge cfg e).counters v).wastedBytes +
      ((a.charge cfg e).counters v).completedBytes + s'.inHand v
    have hhand := heffect.inHand v hv
    have hwasted := (hcharges v hv).wasted
    have hbalance := h.balance v hv
    rw [(hcharges v hv).received, (hcharges v hv).completed]
    omega
  · show s'.sched.coverage.card = completedBytes cfg.admitted + ((List.range cfg.workers).map
      fun v => ((a.charge cfg e).counters v).completedBytes).sum
    -- the credits of all workers are what the coverage grows by
    have hsum : ((List.range cfg.workers).map
        fun v => ((a.charge cfg e).counters v).completedBytes).sum =
        ((List.range cfg.workers).map fun v => (a.counters v).completedBytes).sum +
          ((List.range cfg.workers).map (a.job.credits e)).sum := by
      rw [← List.sum_map_add]
      congr 1
      apply List.map_congr_left
      intro v hv
      exact (hcharges v (List.mem_range.mp hv)).completed
    rw [heffect.coverage, h.coverage, hsum, Nat.add_assoc]
  · intro v hv
    show ((a.charge cfg e).counters v).reusedBytes = _
    rw [(hcharges v hv).reused, h.reused v hv]

/-- The snapshot of a balanced account. -/
theorem Balanced.identity (h : Balanced cfg a) (hworkers : 0 < cfg.workers) :
    AccountingIdentity (a.snapshot cfg) (a.totalReceived cfg) a.job.sched.coverage.card
      (a.totalInHand cfg) := by
  have hreused : ((List.range cfg.workers).map fun v => (a.counters v).reusedBytes).sum =
      completedBytes cfg.admitted := by
    have hmap : (List.range cfg.workers).map (fun v => (a.counters v).reusedBytes) =
        (List.range cfg.workers).map fun v => if v = 0 then completedBytes cfg.admitted else 0 := by
      apply List.map_congr_left
      intro v hv
      exact h.reused v (List.mem_range.mp hv)
    -- only the first worker has a reused part
    obtain ⟨n, hn⟩ := Nat.exists_eq_succ_of_ne_zero hworkers.ne'
    rw [hmap, hn, List.range_succ_eq_map]
    simp [Function.comp_def]
  have hbalance : a.totalReceived cfg =
      ((List.range cfg.workers).map fun v => (a.counters v).wastedBytes).sum +
        ((List.range cfg.workers).map fun v => (a.counters v).completedBytes).sum +
        a.totalInHand cfg := by
    rw [totalReceived, totalInHand, ← List.sum_map_add, ← List.sum_map_add]
    congr 1
    apply List.map_congr_left
    intro v hv
    exact h.balance v (List.mem_range.mp hv)
  have hnetwork : ((List.range cfg.workers).map fun v => (a.counters v).networkBytes).sum =
      a.totalReceived cfg := by
    rw [totalReceived]
    congr 1
    apply List.map_congr_left
    intro v hv
    exact h.network v (List.mem_range.mp hv)
  rw [snapshot, foldCounters_eq]
  simp only [List.map_map, Function.comp_def]
  refine .of_balance hnetwork ?_ hbalance
  show _ + ((List.range cfg.workers).map fun v => (a.counters v).reusedBytes).sum = _
  rw [hreused, h.coverage, Nat.add_comm]

/-- Nothing is in hand when every worker has left. -/
theorem totalInHand_of_exited (h : ∀ w < cfg.workers, a.job.phases w = .exited) :
    a.totalInHand cfg = 0 := by
  apply List.sum_eq_zero
  intro n hn
  obtain ⟨w, hw, rfl⟩ := List.mem_map.mp hn
  refine SegmentedState.inHand_of_none ?_
  rw [h w (List.mem_range.mp hw)]
  rfl

end SegmentedAccount

/-! ### Both modes -/

/-- The snapshot of a sequential job. -/
def SequentialAccount.snapshot (a : SequentialAccount) : ProgressSnapshot :=
  foldCounters [a.counters]

theorem SequentialAccount.Balanced.identity {cfg : SequentialConfig} {a : SequentialAccount}
    (h : a.Balanced cfg) : AccountingIdentity a.snapshot a.received a.loop.offset 0 := by
  have hoffset := h.stands.1
  have hreused := h.reused
  have hcompleted := h.completed
  have hwasted := h.wasted
  have hnetwork := h.network
  rw [snapshot, foldCounters_eq]
  simp only [List.map_cons, List.map_nil, List.sum_cons, List.sum_nil, Nat.add_zero]
  exact .of_balance hnetwork (by simp only; omega) (by simp only; omega)

/-- **Transfer accounting.**  In every run of a sequential job that refuses no
delivered byte and starts over only before the first one, and in every run of a
segmented job that loses no byte in hand, the counters keep the identity at
every moment.  A job that ends with all bytes of a known total has completed or
reused exactly that many, and when all workers have left nothing is in hand. -/
theorem transfer_accounting (whole : SequentialConfig) (cfg : SegmentedConfig)
    (hworkers : 0 < cfg.workers) (hadmitted : AdmittedOk cfg.totalSize cfg.admitted) :
    (∀ a : SequentialAccount,
      Reach (SequentialAccount.step whole) (fun a e => a.keepsCount whole e = true)
        (· = SequentialAccount.init whole) a →
      AccountingIdentity a.snapshot a.received a.loop.offset 0 ∧
        ∀ total, a.loop.phase = .ended → whole.totalSize.or whole.expectedSize = some total →
          a.loop.offset = total →
          a.snapshot.completedBytes + a.snapshot.reusedBytes = total) ∧
    ∀ a : SegmentedAccount,
      Reach (SegmentedAccount.step cfg) (fun a e => a.job.keepsInHand cfg e = true)
        (· = SegmentedAccount.init cfg) a →
      AccountingIdentity (a.snapshot cfg) (a.totalReceived cfg) a.job.sched.coverage.card
          (a.totalInHand cfg) ∧
        ((∀ w < cfg.workers, a.job.phases w = .exited) → a.totalInHand cfg = 0) ∧
        (a.job.sched.isComplete = true →
          (a.snapshot cfg).completedBytes + (a.snapshot cfg).reusedBytes = cfg.totalSize) := by
  constructor
  · intro a h
    have hbalanced : a.Balanced whole := by
      refine Reach.invariant (fun a₀ h₀ => ?_) (fun a₁ e a₂ h₁ hok hs => h₁.step hok hs) h
      rw [h₀]
      exact SequentialAccount.balanced_init whole
    refine ⟨hbalanced.identity, fun total _ _ hoffset => ?_⟩
    rw [hbalanced.identity.coverage, hoffset]
  · intro a h
    have hbalanced : a.Balanced cfg := by
      refine Reach.invariant (fun a₀ h₀ => ?_) (fun a₁ e a₂ h₁ hok hs => h₁.step hok hs) h
      rw [h₀]
      exact SegmentedAccount.balanced_init hadmitted
    have hidentity := hbalanced.identity hworkers
    refine ⟨hidentity, SegmentedAccount.totalInHand_of_exited, fun hcomplete => ?_⟩
    rw [hidentity.coverage, SegmentScheduler.card_coverage_of_isComplete
      hbalanced.tracked.wellFormed hcomplete, hbalanced.tracked.total]

/-! ### Runs of both modes -/

/-- A body that arrives in one piece. -/
def unbrokenBody : List SequentialEvent := [fullBody, received 10, received 10, .endOfBody]

/-- In both modes an unbroken body is counted as completed. -/
theorem transfer_accounting_whole_bodies :
    (∃ a, runEvents (SequentialAccount.step freshJob) (.init freshJob) unbrokenBody = some a ∧
      AccountingIdentity a.snapshot 20 20 0) ∧
    ∃ a, runEvents (SegmentedAccount.step laneJob) (.init laneJob)
        (oneBody "bytes 0-99/100" 100) = some a ∧
      (a.snapshot laneJob).completedBytes + (a.snapshot laneJob).reusedBytes = 100 := by
  obtain ⟨hsequential, hsegmented⟩ := transfer_accounting freshJob laneJob (by decide)
    ⟨List.Pairwise.nil, fun _ hr => by cases hr⟩
  constructor
  · have hend : ((runEvents (SequentialAccount.step freshJob) (.init freshJob) unbrokenBody).map
        fun a => (a.received, a.loop.offset)) = some (20, 20) := by rfl
    obtain ⟨a, hrun, ha⟩ := Option.map_eq_some_iff.mp hend
    obtain ⟨hreceived, hoffset⟩ := Prod.mk.inj ha
    have hreach : Reach (SequentialAccount.step freshJob)
        (fun a e => a.keepsCount freshJob e = true) (· = .init freshJob) a :=
      .of_run (.start rfl) (by decide) hrun
    have hidentity := (hsequential a hreach).1
    rw [hreceived, hoffset] at hidentity
    exact ⟨a, hrun, hidentity⟩
  · have hend : ((runEvents (SegmentedAccount.step laneJob) (.init laneJob)
        (oneBody "bytes 0-99/100" 100)).map fun a => a.job.sched.isComplete) = some true := by
      decide +kernel
    obtain ⟨a, hrun, hcomplete⟩ := Option.map_eq_some_iff.mp hend
    have hreach : Reach (SegmentedAccount.step laneJob)
        (fun a e => a.job.keepsInHand laneJob e = true) (· = .init laneJob) a :=
      .of_run (.start rfl) (by decide +kernel) hrun
    exact ⟨a, hrun, (hsegmented a hreach).2.2 hcomplete⟩

/-- **A body breaks off after ten bytes and is tried again**: the ten bytes stay
in the file and are charged as wasted all the same. -/
theorem kept_prefix_counted_wasted :
    ¬ ((∀ (cfg : SequentialConfig) (a : SequentialAccount),
        Reach (SequentialAccount.step cfg) (fun _ _ => True)
          (· = SequentialAccount.init cfg) a →
        AccountingIdentity a.snapshot a.received a.loop.offset 0 ∧
          ∀ total, a.loop.phase = .ended → cfg.totalSize.or cfg.expectedSize = some total →
            a.loop.offset = total →
            a.snapshot.completedBytes + a.snapshot.reusedBytes = total) ∧
      ∀ (cfg : SegmentedConfig) (a : SegmentedAccount), 0 < cfg.workers →
        AdmittedOk cfg.totalSize cfg.admitted →
        Reach (SegmentedAccount.step cfg) (fun _ _ => True)
          (· = SegmentedAccount.init cfg) a →
        AccountingIdentity (a.snapshot cfg) (a.totalReceived cfg) a.job.sched.coverage.card
            (a.totalInHand cfg) ∧
          ((∀ w < cfg.workers, a.job.phases w = .exited) → a.totalInHand cfg = 0) ∧
          (a.job.sched.isComplete = true →
            (a.snapshot cfg).completedBytes + (a.snapshot cfg).reusedBytes = cfg.totalSize)) := by
  intro h
  have hend : ((runEvents (SequentialAccount.step freshJob) (.init freshJob) resumedBody).map
      fun a => (a.snapshot, a.received, a.loop.offset)) = some (⟨20, 20, 0, 10⟩, 20, 20) := by rfl
  obtain ⟨a, hrun, ha⟩ := Option.map_eq_some_iff.mp hend
  obtain ⟨hsnapshot, hrest⟩ := Prod.mk.inj ha
  obtain ⟨hreceived, hoffset⟩ := Prod.mk.inj hrest
  have hreach : Reach (SequentialAccount.step freshJob) (fun _ _ => True)
      (· = .init freshJob) a :=
    .of_run (.start rfl) runOk_true hrun
  have hwasted := (h.1 freshJob a hreach).1.wasted
  rw [hsnapshot, hreceived, hoffset] at hwasted
  exact absurd hwasted (by decide)

end KDown
