/-
KDown/EngineConfig.lean

The validation of the engine configuration (`EngineConfig::validate` in
config.rs), and what the ledger built from an accepted one never does.

The budget of the transfer memory is checked in KDown/LedgerAdmission.lean.
Here are the checks around it.  Two chains of inequalities come out of all of
them: a chunk fits the frames, the job and the pipeline pool, and through the
read-ahead of a worker it fits the writer (`validate_chunk`).  A pool refuses
only what is above its cap (`RefusedOverCap`), and so no run of the ledger
refuses a chunk as oversize (`validated_feasible`).

Parsing the URL of a proxy is left to the `http` crate.
-/
import KDown.EngineConnector
import KDown.LedgerRefusals
import KDown.Redirect

namespace KDown

/-! ### The configuration -/

/-- A 64-bit floating-point number. -/
inductive Float64
  | finite (value : ℚ)
  | infinity (negative : Bool)
  | nan

/-- Nothing is below or above what is not a number. -/
def Float64.below : Float64 → ℚ → Bool
  | .finite value, bound => value < bound
  | .infinity negative, _ => negative
  | .nan, _ => false

/-- How a job is cut into segments. -/
structure TransferPolicy where
  maxWorkers : ℕ
  minWorkers : ℕ
  initialSegmentSize : ℕ
  minSegmentSize : ℕ
  maxSegmentSize : ℕ
  autoOversubscription : ℕ

/-- The retry policy with its delays, in nanoseconds. -/
structure RetryShape extends RetryPolicy where
  baseDelay : ℕ
  maxDelay : ℕ
  multiplier : Float64

/-- Timeouts, in nanoseconds. -/
structure NetworkPolicy where
  connectTimeout : ℕ
  tlsHandshakeTimeout : ℕ
  responseHeaderTimeout : ℕ
  readIdleTimeout : ℕ

/-- `PoolConfig`. -/
structure ConnectionPoolConfig where
  maxTotal : ℕ
  maxPerOrigin : ℕ
  idleTimeout : ℕ

/-- The bytes that may be on their way to the writer. -/
structure WriteBudgetConfig where
  globalMaxBytes : ℕ
  jobMaxBytes : ℕ
  workerReadAheadBytes : ℕ

/-- The threads and the queue of the write executor. -/
structure WriteExecutorConfig where
  writerThreads : ℕ
  maxQueuedBytes : ℕ

/-- How many HTTP/2 connections an origin gets. -/
inductive H2ConnectionPolicy
  | single
  | additional (maxConnections : ℕ)

/-- What the validation reads. -/
structure EngineConfig where
  maxActiveJobs : ℕ
  maxConnectionsTotal : ℕ
  maxConnectionsPerOrigin : ℕ
  readBufferSize : ℕ
  bufferPoolMaxBytes : ℕ
  checkpointFlushInterval : ℕ
  metricsInterval : ℕ
  pool : ConnectionPoolConfig
  h2Policy : H2ConnectionPolicy
  proxy : ProxyConfig
  transfer : TransferPolicy
  retry : RetryShape
  network : NetworkPolicy
  writeBudget : WriteBudgetConfig
  transferMemory : TransferMemoryConfig
  writeExecutor : WriteExecutorConfig
  globalRateLimit : Option ℕ
  /-- A 32-bit number. -/
  readBufferSize_lt : readBufferSize < 2 ^ 32

/-! ### The checks -/

/-- The checks of the segments. -/
def validateTransfer (t : TransferPolicy) : Except (String × String) Unit := do
  requireConfig (t.maxWorkers ≠ 0) "transfer.max_workers" "must be at least 1"
  requireConfig (t.minWorkers ≠ 0 && t.minWorkers ≤ t.maxWorkers) "transfer.min_workers"
    "must be in 1..=max_workers"
  requireConfig (t.minSegmentSize ≠ 0) "transfer.min_segment_size" "must be at least 1"
  requireConfig (t.minSegmentSize ≤ t.maxSegmentSize) "transfer.max_segment_size"
    "must be >= min_segment_size"
  requireConfig (t.minSegmentSize ≤ t.initialSegmentSize && t.initialSegmentSize ≤ t.maxSegmentSize)
    "transfer.initial_segment_size" "must be within [min_segment_size, max_segment_size]"
  requireConfig (t.autoOversubscription ≠ 0) "transfer.auto_oversubscription" "must be at least 1"

/-- The checks of the retry policy. -/
def validateRetry (r : RetryShape) : Except (String × String) Unit := do
  requireConfig (r.maxAttemptsPerSegment ≠ 0) "retry.max_attempts_per_segment" "must be at least 1"
  requireConfig (r.baseDelay ≠ 0) "retry.base_delay" "must be greater than zero"
  requireConfig (r.baseDelay ≤ r.maxDelay) "retry.max_delay" "must be >= base_delay"
  requireConfig (!r.multiplier.below 1) "retry.multiplier" "must be >= 1.0"

/-- The checks of the timeouts. -/
def validateNetwork (n : NetworkPolicy) : Except (String × String) Unit := do
  requireConfig (n.connectTimeout ≠ 0) "network.connect_timeout" "must be greater than zero"
  requireConfig (n.tlsHandshakeTimeout ≠ 0) "network.tls_handshake_timeout"
    "must be greater than zero"
  requireConfig (n.responseHeaderTimeout ≠ 0) "network.response_header_timeout"
    "must be greater than zero"
  requireConfig (n.readIdleTimeout ≠ 0) "network.read_idle_timeout" "must be greater than zero"

/-- The checks of the pool, which must agree with the connection limits. -/
def validatePool (p : ConnectionPoolConfig) (maxTotal maxPerOrigin : ℕ) :
    Except (String × String) Unit := do
  requireConfig (p.maxTotal ≠ 0 && p.maxPerOrigin ≠ 0) "pool.max_total/max_per_origin"
    "must be at least 1"
  requireConfig (p.maxPerOrigin ≤ p.maxTotal) "pool.max_per_origin" "must be <= pool.max_total"
  requireConfig (maxTotal = p.maxTotal && maxPerOrigin = p.maxPerOrigin) "pool.max_total"
    "must match max_connections_total/max_connections_per_origin"
  requireConfig (p.idleTimeout ≠ 0) "pool.idle_timeout" "must be greater than zero"

/-- The URL has an authority with a port. -/
def proxyUrlOk (http : HttpCrate) (url : List Char) : Bool :=
  match http.uri url with
  | .ok uri => uri.authority.isSome && 0 < uri.port.getD 0
  | .error _ => false

/-- The check of the proxy's URL. -/
def validateProxy (http : HttpCrate) (proxy : ProxyConfig) : Except (String × String) Unit :=
  match proxy.url with
  | none => .ok ()
  | some url => requireConfig (proxyUrlOk http url.toList) "proxy.url"
      "must parse as a URI with host and port"

/-- The check of the HTTP/2 policy. -/
def validateH2 : H2ConnectionPolicy → Except (String × String) Unit
  | .single => .ok ()
  | .additional maxConnections => requireConfig (maxConnections ≠ 0) "h2_policy.max_connections"
      "must be at least 1"

namespace EngineConfig

/-- The part the budget is checked against. -/
def budget (c : EngineConfig) : BudgetEngineConfig where
  readBufferSize := c.readBufferSize
  maxConnectionsTotal := c.maxConnectionsTotal
  bufferPoolMaxBytes := c.bufferPoolMaxBytes
  globalMaxBytes := c.writeBudget.globalMaxBytes
  jobMaxBytes := c.writeBudget.jobMaxBytes
  workerReadAheadBytes := c.writeBudget.workerReadAheadBytes
  maxQueuedBytes := c.writeExecutor.maxQueuedBytes

/-- Validate the entire configuration; the first violation is returned. -/
def validate (http : HttpCrate) (c : EngineConfig) : Except (String × String) Unit := do
  requireConfig (c.maxActiveJobs ≠ 0) "max_active_jobs" "must be at least 1"
  requireConfig (c.maxConnectionsTotal ≠ 0 && c.maxConnectionsPerOrigin ≠ 0) "max_connections_*"
    "must be at least 1"
  requireConfig (c.maxConnectionsPerOrigin ≤ c.maxConnectionsTotal) "max_connections_per_origin"
    "must be <= max_connections_total"
  requireConfig (4096 ≤ c.readBufferSize) "read_buffer_size" "must be at least 4096"
  requireConfig (c.readBufferSize ≤ c.bufferPoolMaxBytes) "buffer_pool_max_bytes"
    "must be >= read_buffer_size"
  requireConfig (c.writeBudget.globalMaxBytes ≠ 0 && c.writeBudget.jobMaxBytes ≠ 0 &&
    c.writeBudget.workerReadAheadBytes ≠ 0) "write_budget.*" "must be greater than zero"
  requireConfig (c.writeBudget.jobMaxBytes ≤ c.writeBudget.globalMaxBytes)
    "write_budget.job_max_bytes" "must be <= write_budget.global_max_bytes"
  requireConfig (c.globalRateLimit ≠ some 0) "global_rate_limit"
    "use None for unlimited, not Some(0)"
  requireConfig (c.writeBudget.workerReadAheadBytes ≤ c.writeBudget.jobMaxBytes)
    "write_budget.worker_read_ahead_bytes" "must be <= write_budget.job_max_bytes"
  requireConfig (c.readBufferSize ≤ c.writeBudget.workerReadAheadBytes)
    "write_budget.worker_read_ahead_bytes" "must be >= read_buffer_size (one frame quantum)"
  requireConfig (c.writeExecutor.writerThreads ≠ 0) "write_executor.writer_threads"
    "must be at least 1"
  requireConfig (c.readBufferSize ≤ c.writeExecutor.maxQueuedBytes)
    "write_executor.max_queued_bytes" "must be >= read_buffer_size (one frame quantum)"
  c.transferMemory.validate c.budget
  requireConfig (c.checkpointFlushInterval ≠ 0 && c.metricsInterval ≠ 0)
    "checkpoint_flush_interval/metrics_interval" "must be greater than zero"
  validateTransfer c.transfer
  validateRetry c.retry
  validateNetwork c.network
  validatePool c.pool c.maxConnectionsTotal c.maxConnectionsPerOrigin
  validateProxy http c.proxy
  validateH2 c.h2Policy

/-- The ledger of the engine, with the pools of all its jobs. -/
def ledger (c : EngineConfig) : TransferLedger := .new (c.transferMemory.poolCap c.budget)

variable {http : HttpCrate} {c : EngineConfig}

/-- **A chunk fits one owned frame, and the read-ahead of a worker.** -/
theorem validate_chunk (h : c.validate http = .ok ()) :
    c.transferMemory.validate c.budget = .ok () ∧
      c.readBufferSize ≤ c.writeBudget.workerReadAheadBytes := by
  simp only [validate, requireConfig_bind_ok, decide_eq_true_eq] at h
  obtain ⟨-, -, -, -, -, -, -, -, -, hahead, -, -, hrest⟩ := h
  refine ⟨?_, hahead⟩
  rcases hmemory : c.transferMemory.validate c.budget with e | ⟨⟩
  · rw [hmemory] at hrest
    cases hrest
  · rfl

end EngineConfig

/-! ### What the ledger refuses -/

namespace TransferLedger

variable {cap : PoolId → ℕ} {s s' : TransferLedger} {k : ℕ} {r : TransferReservation}

/-- The refusal that `reserve` returns before it asks any pool. -/
def reserveRefusal (cap : PoolId → ℕ) (j : ℕ) (c : Component) (bytes : ℕ) : Option LedgerRefusal :=
  if KDown.tightestCap cap j c < bytes then
    some (.oversize ⟨c, bytes, KDown.tightestCap cap j c⟩)
  else none

/-- The refusal that `retag` returns before it asks the pool. -/
def retagRefusal (cap : PoolId → ℕ) (j : ℕ) (dst : Component) (r : TransferReservation) :
    Option LedgerRefusal :=
  if dst = r.component then none
  else if cap (.component j dst) < r.bytes then
    some (.oversize ⟨dst, r.bytes, cap (.component j dst)⟩)
  else none

/-- `reserve` either refuses and changes nothing, or asks the first pool. -/
theorem reserve_eq (s : TransferLedger) (j : ℕ) (c : Component) (bytes : ℕ) :
    s.reserve cap j c bytes =
      if (reserveRefusal cap j c bytes).isSome then s
      else { s.setHandle s.size
        { s.handle s.size with
          job := j
          work := .acquiring (.reserve c) bytes [] (PoolId.links j c) none } with
        size := s.size + 1 } := by
  rw [reserve, reserveRefusal]
  split_ifs with hover hsome hsome
  · rfl
  · exact absurd rfl hsome
  · cases hsome
  · rfl

/-- `retag` to another component either refuses and changes nothing, or asks the
pool of that component. -/
theorem retag_eq (s : TransferLedger) (k : ℕ) {dst : Component} (hdst : dst ≠ r.component) :
    s.retag cap k dst r =
      if (retagRefusal cap (s.handle k).job dst r).isSome then s
      else s.setWork k
        (.acquiring (.retag dst) r.bytes [] [.component (s.handle k).job dst] none) := by
  rw [retag, retagRefusal, if_neg hdst, if_neg hdst]
  split_ifs with hover hsome hsome
  · rfl
  · exact absurd rfl hsome
  · cases hsome
  · rfl

/-- The current call of a handle is refused only for what is above its pool's
cap. -/
def RefusesOverCap (cap : PoolId → ℕ) (s : TransferLedger) (k : ℕ) : Prop :=
  ∀ p m, (s.handle k).work.current = some (p, m) → (s.pool p).phases (k, m) = .refused →
    cap p < (s.handle k).work.bytes

/-- A step of the current call refuses only what is above the cap. -/
theorem refusal_of_stepCall (hi : LedgerInv cap s) {p : PoolId} {m : ℕ}
    (hcur : (s.handle k).work.current = some (p, m)) (hs : s.stepCall k p m = some s') :
    s'.handle k = s.handle k ∧ ((s'.pool p).phases (k, m) = .refused →
      cap p < (s.handle k).work.bytes) := by
  obtain ⟨q, hq, rfl⟩ := Option.map_eq_some_iff.mp hs
  refine ⟨rfl, fun href => ?_⟩
  rw [pool_setPool_self] at href
  have hover := (PoolSystem.refused_of_next hq href).2
  rwa [hi.caps p, hi.bytes_eq p k m hcur] at hover

theorem RefusesOverCap.of_current_none (h : (s.handle k).work.current = none) :
    s.RefusesOverCap cap k := by
  intro p m hcur
  rw [h] at hcur
  cases hcur

theorem RefusesOverCap.setWork {w : LedgerWork} (h : w.current = none) :
    (s.setWork k w).RefusesOverCap cap k := by
  apply of_current_none
  rw [TransferLedger.setWork, handle_setHandle_self]
  exact h

theorem RefusesOverCap.stepCall (hi : LedgerInv cap s) {p : PoolId} {m : ℕ}
    (hcur : (s.handle k).work.current = some (p, m)) (hs : s.stepCall k p m = some s') :
    s'.RefusesOverCap cap k := by
  obtain ⟨hhandle, hrefused⟩ := refusal_of_stepCall hi hcur hs
  intro p' m' hcur' href
  rw [hhandle] at hcur' ⊢
  obtain ⟨rfl, rfl⟩ := Prod.mk.inj (Option.some.inj (hcur.symm.trans hcur'))
  exact hrefused href

/-- A call that has only begun is not refused. -/
theorem RefusesOverCap.startCall {p : PoolId} {e : ℕ × ℕ → PoolCallEvent (ℕ × ℕ)} {n : ℕ}
    (he : ∀ i, e i = .acquire i n ∨ e i = .release i n) {w : ℕ → LedgerWork}
    (hw : ∀ m, (w m).current = some (p, m)) (hs : s.startCall k p e w = some s') :
    s'.RefusesOverCap cap k := by
  obtain ⟨q, hq, rfl⟩ := startCall_cases hs
  obtain ⟨-, hphase⟩ := moves_of_begin (he _) hq
  intro p' m hcur href
  rw [handle_setHandle_self] at hcur
  obtain ⟨rfl, rfl⟩ := Prod.mk.inj (Option.some.inj ((hw _).symm.trans hcur))
  have hq' : q.phases (k, (s.handle k).calls) = .refused := by
    rw [← href]
    exact congrArg (fun x : PoolSystem (ℕ × ℕ) => x.phases _) (pool_setPool_self p q).symm
  rcases hphase with h | h <;> rw [h] at hq' <;> cases hq'

/-- With the last pool the acquisition is over. -/
theorem acquired_current (n : ℕ) (goal : AcquireGoal) :
    ((s.acquired cap k n goal).handle k).work.current = none := by
  rcases goal with c | - | dst
  · rw [acquired, handle_setHandle_self]
    rfl
  · rw [acquired, handle_setHandle_self]
    rfl
  · rw [acquired]
    split
    · rw [TransferLedger.setWork, handle_setHandle_self]
      rfl
    · rw [handle_setHandle_self]
      rfl

/-- The operation on a handle goes on. -/
theorem RefusesOverCap.advance (hi : LedgerInv cap s)
    (hs : s.advance cap k (s.handle k).work = some s') : s'.RefusesOverCap cap k := by
  rcases hw : (s.handle k).work with - | ⟨goal, n, taken, - | ⟨p, todo⟩, - | m⟩ |
      ⟨n, - | ⟨p, todo⟩, - | m⟩ <;> rw [hw] at hs
  · cases hs
  · rw [← Option.some.inj hs]
    exact .of_current_none (acquired_current n goal)
  · rw [← Option.some.inj hs]
    exact .of_current_none (acquired_current n goal)
  · simp only [TransferLedger.advance] at hs
    exact .startCall (fun _ => .inl rfl) (fun _ => rfl) hs
  · have hcur : (s.handle k).work.current = some (p, m) := by
      rw [hw]
      rfl
    simp only [TransferLedger.advance] at hs
    split at hs
    · rw [← Option.some.inj hs]
      exact .setWork (by rcases todo <;> rfl)
    · rw [← Option.some.inj hs]
      exact .setWork (by rcases taken <;> rfl)
    · rw [← Option.some.inj hs]
      exact .setWork (by rcases taken <;> rfl)
    · exact .stepCall hi hcur hs
  · rw [← Option.some.inj hs]
    exact .setWork rfl
  · rw [← Option.some.inj hs]
    exact .setWork rfl
  · simp only [TransferLedger.advance] at hs
    exact .startCall (fun _ => .inr rfl) (fun _ => rfl) hs
  · have hcur : (s.handle k).work.current = some (p, m) := by
      rw [hw]
      rfl
    simp only [TransferLedger.advance] at hs
    split at hs
    · rw [← Option.some.inj hs]
      exact .setWork (by rcases todo <;> rfl)
    · exact .stepCall hi hcur hs

theorem RefusesOverCap.cancel (hs : s.cancel k (s.handle k).work = some s') :
    s'.RefusesOverCap cap k := by
  rcases hw : (s.handle k).work with - | ⟨goal, n, taken, - | ⟨p, todo⟩, - | m⟩ | ⟨n, todo, call⟩ <;>
    rw [hw] at hs
  · cases hs
  · cases hs
  · cases hs
  · cases hs
  · obtain ⟨q, hq, rfl⟩ := Option.map_eq_some_iff.mp hs
    intro p' m' hcur' href
    have hcur : (s.handle k).work.current = some (p, m) := by
      rw [hw]
      rfl
    obtain ⟨rfl, rfl⟩ := Prod.mk.inj (Option.some.inj (hcur.symm.trans hcur'))
    rw [pool_setPool_self, (PoolSystem.balanced_of_cancel hq).2] at href
    cases href
  · cases hs

/-- In a step one handle's operation begins or goes on, and the others stay. -/
theorem RefusesOverCap.step (hi : LedgerInv cap s) (h : ∀ k, s.RefusesOverCap cap k)
    {e : LedgerEvent} (hs : s.step cap e = some s') (k : ℕ) : s'.RefusesOverCap cap k := by
  by_cases hk : k = s.subject e
  · subst hk
    rcases begins_of_step hi hs with hbegins | hadv | hcan
    · exact .of_current_none hbegins.current
    · exact .advance hi hadv
    · exact .cancel hcan
  · obtain ⟨hhandle, hphases⟩ := (handleStep_of_step hi hs).same k hk
    intro p m hcur href
    rw [hhandle] at hcur ⊢
    rw [hphases p m] at href
    exact h k p m hcur href

/-- No pool refuses an operation that fits the pools it goes through. -/
theorem not_poolRefuses (h : s.RefusesOverCap cap k) {goal : AcquireGoal} {n : ℕ}
    {taken todo : List PoolId} {call : Option ℕ}
    (hw : (s.handle k).work = .acquiring goal n taken todo call) (hfits : ∀ p ∈ todo, n ≤ cap p) :
    ¬ s.PoolRefuses k := by
  rintro ⟨p, m, hcur, href⟩
  have hover := h p m hcur href
  rw [hw] at hcur hover
  rcases todo with - | ⟨p', todo⟩
  · cases hcur
  · rcases call with - | m'
    · cases hcur
    · obtain ⟨rfl, rfl⟩ := Prod.mk.inj (Option.some.inj hcur)
      exact absurd hover (not_lt.mpr (hfits _ List.mem_cons_self))

end TransferLedger

/-! ### A validated configuration -/

namespace EngineConfig

variable {http : HttpCrate} {c : EngineConfig}

/-- A state of the engine's ledger, with any number of jobs and handles. -/
def LedgerReach (c : EngineConfig) : TransferLedger → Prop :=
  Reach (TransferLedger.step (c.transferMemory.poolCap c.budget)) (fun _ _ => True) (· = c.ledger)

/-- What is asked of a configuration. -/
structure Feasible (c : EngineConfig) : Prop where
  footprint : c.transferMemory.connectionIngressFootprint c.readBufferSize ≤ u64Max
  /-- The carve-out is the product itself. -/
  reserve : c.transferMemory.connectionIngressReserve c.budget =
    c.transferMemory.connectionIngressFootprint c.readBufferSize * c.maxConnectionsTotal
  pipeline : c.transferMemory.jobMaxBytes ≤ (c.ledger.pool .controller).pool.cap
  /-- No chunk is refused before a pool is asked, -/
  reserved : ∀ j bytes, bytes ≤ c.readBufferSize → ∀ component ∈ [Component.frames, .writer],
    TransferLedger.reserveRefusal (c.transferMemory.poolCap c.budget) j component bytes = none
  retagged : ∀ s, c.LedgerReach s → ∀ k, ∀ r ∈ (s.handle k).live, r.bytes ≤ c.readBufferSize →
    TransferLedger.retagRefusal (c.transferMemory.poolCap c.budget) (s.handle k).job .writer r = none
  /-- so that its pools are asked, -/
  begun : ∀ s j bytes, bytes ≤ c.readBufferSize → ∀ component ∈ [Component.frames, .writer],
    ((TransferLedger.reserve s (c.transferMemory.poolCap c.budget) j component bytes).handle
      s.size).work = .acquiring (.reserve component) bytes [] (PoolId.links j component) none
  moved : ∀ s, c.LedgerReach s → ∀ k, ∀ r ∈ (s.handle k).live, r.bytes ≤ c.readBufferSize →
    r.component ≠ .writer →
    ((s.retag (c.transferMemory.poolCap c.budget) k .writer r).handle k).work =
      .acquiring (.retag .writer) r.bytes [] [.component (s.handle k).job .writer] none
  /-- and none by a pool that is asked. -/
  asked : ∀ s, c.LedgerReach s → ∀ k goal bytes taken todo call,
    goal ∈ [AcquireGoal.reserve .frames, .reserve .writer, .retag .writer] →
    (s.handle k).work = .acquiring goal bytes taken todo call → bytes ≤ c.readBufferSize →
    ¬ s.PoolRefuses k

/-- A footprint is a few times a 32-bit number at most. -/
theorem footprint_le (c : EngineConfig) :
    c.transferMemory.connectionIngressFootprint c.readBufferSize ≤ u64Max := by
  have hbuffer := c.readBufferSize_lt
  unfold TransferMemoryConfig.connectionIngressFootprint TransferMemoryConfig.ingressWindowCap
    TransferMemoryConfig.maxHeaderListBytes u64Max
  omega

/-- The caps of an accepted budget, from a chunk up to the aggregate. -/
theorem validate_caps (h : c.validate http = .ok ()) :
    c.readBufferSize ≤ c.transferMemory.framesMaxBytes ∧
      c.readBufferSize ≤ c.transferMemory.writerMaxBytes ∧
      c.transferMemory.framesMaxBytes ≤ c.transferMemory.jobMaxBytes ∧
      c.transferMemory.writerMaxBytes ≤ c.transferMemory.jobMaxBytes ∧
      c.maxConnectionsTotal * c.transferMemory.connectionIngressFootprint c.readBufferSize +
        c.transferMemory.jobMaxBytes ≤ c.transferMemory.aggregateMaxBytes := by
  obtain ⟨hmemory, hahead⟩ := validate_chunk h
  obtain ⟨-, hframes, hwriter, -, -⟩ := TransferMemoryConfig.validate_nested hmemory
  simp only [TransferMemoryConfig.validate, requireConfig_bind_ok, decide_eq_true_eq] at hmemory
  obtain ⟨-, -, -, -, -, -, -, -, -, -, -, -, hchunk, -, -, -, hreserved, -, -, hread, -⟩ := hmemory
  exact ⟨hchunk, hahead.trans hread, hframes, hwriter, hreserved⟩

theorem validate_reserve (h : c.validate http = .ok ()) :
    c.transferMemory.connectionIngressReserve c.budget =
      c.transferMemory.connectionIngressFootprint c.readBufferSize * c.maxConnectionsTotal := by
  obtain ⟨-, -, -, -, hreserved⟩ := validate_caps h
  have haggregate := c.transferMemory.aggregate_le
  apply min_eq_left
  show c.transferMemory.connectionIngressFootprint c.readBufferSize * c.maxConnectionsTotal ≤ _
  rw [Nat.mul_comm]
  omega

theorem validate_pipeline (h : c.validate http = .ok ()) :
    c.transferMemory.jobMaxBytes ≤ c.transferMemory.poolCap c.budget .controller := by
  obtain ⟨-, -, -, -, hreserved⟩ := validate_caps h
  show _ ≤ c.transferMemory.aggregateMaxBytes - c.transferMemory.connectionIngressReserve c.budget
  rw [validate_reserve h, Nat.mul_comm]
  omega

/-- A chunk fits every pool that a frame or a write is charged to. -/
theorem chunk_le_tightestCap (h : c.validate http = .ok ()) (j : ℕ) :
    ∀ component ∈ [Component.frames, .writer],
      c.readBufferSize ≤ tightestCap (c.transferMemory.poolCap c.budget) j component := by
  obtain ⟨hframes, hwriter, hframesJob, hwriterJob, -⟩ := validate_caps h
  have hpipeline := validate_pipeline h
  intro component hmem
  rcases List.mem_cons.mp hmem with rfl | hmem
  · exact le_min (le_min hframes (hframes.trans hframesJob))
      ((hframes.trans hframesJob).trans hpipeline)
  · rw [List.mem_singleton.mp hmem]
    exact le_min (le_min hwriter (hwriter.trans hwriterJob))
      ((hwriter.trans hwriterJob).trans hpipeline)

theorem reserveRefusal_of_validate (h : c.validate http = .ok ()) (j : ℕ) {bytes : ℕ}
    (hbytes : bytes ≤ c.readBufferSize) {component : Component}
    (hmem : component ∈ [Component.frames, .writer]) :
    TransferLedger.reserveRefusal (c.transferMemory.poolCap c.budget) j component bytes = none := by
  rw [TransferLedger.reserveRefusal,
    if_neg (not_lt.mpr (hbytes.trans (chunk_le_tightestCap h j component hmem)))]

theorem retagRefusal_of_validate (h : c.validate http = .ok ()) (j : ℕ)
    {r : TransferReservation} (hbytes : r.bytes ≤ c.readBufferSize) :
    TransferLedger.retagRefusal (c.transferMemory.poolCap c.budget) j .writer r = none := by
  obtain ⟨-, hwriter, -⟩ := validate_caps h
  rw [TransferLedger.retagRefusal]
  split_ifs with hdst hover
  · rfl
  · exact absurd hover (not_lt.mpr (hbytes.trans hwriter))
  · rfl

/-- The invariants of every run of the ledger. -/
theorem LedgerReach.inv {s : TransferLedger} (h : c.LedgerReach s) :
    TransferLedger.LedgerInv (c.transferMemory.poolCap c.budget) s ∧
      ∀ k, s.RefusesOverCap (c.transferMemory.poolCap c.budget) k := by
  refine h.invariant (I := fun s => TransferLedger.LedgerInv (c.transferMemory.poolCap c.budget) s ∧
    ∀ k, s.RefusesOverCap (c.transferMemory.poolCap c.budget) k) ?_ ?_
  · rintro _ rfl
    exact ⟨.new _, fun _ => .of_current_none rfl⟩
  · intro t _ _ hi _ hs
    exact ⟨hi.1.step hs, .step hi.1 hi.2 hs⟩

/-- **Feasibility.**  Of an accepted configuration the arithmetic does not
overflow, the pipeline pool holds a job, and no chunk is ever refused as
oversize. -/
theorem validated_feasible (h : c.validate http = .ok ()) : c.Feasible where
  footprint := c.footprint_le
  reserve := validate_reserve h
  pipeline := validate_pipeline h
  reserved j bytes hbytes component hmem := reserveRefusal_of_validate h j hbytes hmem
  retagged s _ k r _ hbytes := retagRefusal_of_validate h _ hbytes
  begun s j bytes hbytes component hmem := by
    rw [TransferLedger.reserve_eq, reserveRefusal_of_validate h j hbytes hmem]
    exact congrArg LedgerHandle.work (TransferLedger.handle_setHandle_self ..)
  moved s _ k r _ hbytes hother := by
    rw [TransferLedger.retag_eq s k hother.symm, retagRefusal_of_validate h _ hbytes]
    exact congrArg LedgerHandle.work (TransferLedger.handle_setHandle_self ..)
  asked := by
    intro s hs k goal bytes taken todo call hgoal hw hbytes
    obtain ⟨hi, hrefuses⟩ := hs.inv
    refine TransferLedger.not_poolRefuses (hrefuses k) hw fun p hp => ?_
    have hok := hi.goals k
    rw [hw] at hok
    have hreserve : ∀ component ∈ [Component.frames, .writer], ∀ job,
        taken.reverse ++ todo = PoolId.links job component →
          bytes ≤ c.transferMemory.poolCap c.budget p := by
      intro component hmem job hlinks
      have hlink : p ∈ PoolId.links job component := by
        rw [← hlinks]
        exact List.mem_append_right _ hp
      calc bytes ≤ c.readBufferSize := hbytes
        _ ≤ _ := chunk_le_tightestCap h job component hmem
        _ ≤ _ := TransferLedger.le_cap_of_mem_links hlink
    rcases List.mem_cons.mp hgoal with rfl | hgoal
    · exact hreserve .frames List.mem_cons_self _ hok.2.2
    · rcases List.mem_cons.mp hgoal with rfl | hgoal
      · exact hreserve .writer (List.mem_cons_of_mem _ List.mem_cons_self) _ hok.2.2
      · rw [List.mem_singleton.mp hgoal] at hok
        obtain ⟨r, -, -, htarget⟩ := hok
        have hlink : p ∈ [PoolId.component (s.handle k).job .writer] := by
          rw [← htarget]
          exact List.mem_append_right _ hp
        rw [List.mem_singleton.mp hlink]
        exact hbytes.trans (validate_caps h).2.1

/-- `EngineConfig::default`. -/
def default : EngineConfig where
  maxActiveJobs := 64
  maxConnectionsTotal := 256
  maxConnectionsPerOrigin := 16
  readBufferSize := 128 * 1024
  bufferPoolMaxBytes := 128 * 1024 * 1024
  checkpointFlushInterval := 2000000000
  metricsInterval := 500000000
  pool := ⟨256, 16, 90000000000⟩
  h2Policy := .single
  proxy := .none
  transfer := ⟨8, 1, 8 * 1024 * 1024, 1024 * 1024, 64 * 1024 * 1024, 3⟩
  retry := ⟨⟨true, true, true, 8⟩, 250000000, 30000000000, .finite 2⟩
  network := ⟨10000000000, 10000000000, 20000000000, 30000000000⟩
  writeBudget := ⟨64 * 1024 * 1024, 8 * 2 * (128 * 1024), 2 * (128 * 1024)⟩
  transferMemory :=
    ⟨1024 * 1024 * 1024, 8 * 1024 * 1024, 8 * 1024 * 1024, 2 * 1024 * 1024, 2 * 1024 * 1024,
      1024 * 1024, by decide⟩
  writeExecutor := ⟨4, 32 * 1024 * 1024⟩
  globalRateLimit := none
  readBufferSize_lt := by decide

/-- The parser is not asked without a proxy. -/
def noUris : HttpCrate := ⟨fun _ => .error "", fun _ => .error "", fun _ => .error ""⟩

/-- The default configuration is accepted. -/
theorem validated_feasible_default : default.Feasible :=
  @validated_feasible noUris default (by decide +kernel)

end EngineConfig

end KDown
