/-
KDown/LedgerAdmission.lean

The configuration of the transfer-memory ledger (config.rs) and who waits for
whom in it (io/transfer_ledger.rs).

A handle that waits inside `reserve` holds what it has taken so far.  When
every handle is out of use or sleeps inside `reserve`, nobody sleeps at all
(`AllWaiting.idle`).  The argument follows the order of acquisition: the
controller pool is charged by nobody who waits, so nobody waits for it; then
the same holds for the job pools and at last for the component pools.

The second half says what one event does to the handles it is not about and
how a call falls asleep (`handleStep_of_step`).
-/
import KDown.TransferLedger

namespace KDown

/-! ### The configuration of the ledger -/

/-- End-to-end memory budget, in 64-bit numbers. -/
structure TransferMemoryConfig where
  aggregateMaxBytes : ℕ
  jobMaxBytes : ℕ
  networkIngressMaxBytes : ℕ
  framesMaxBytes : ℕ
  writerMaxBytes : ℕ
  checkpointMaxBytes : ℕ
  aggregate_le : aggregateMaxBytes ≤ u64Max

/-- What the validation of the budget reads of the engine configuration. -/
structure BudgetEngineConfig where
  readBufferSize : ℕ
  maxConnectionsTotal : ℕ
  bufferPoolMaxBytes : ℕ
  /-- `write_budget`. -/
  globalMaxBytes : ℕ
  jobMaxBytes : ℕ
  workerReadAheadBytes : ℕ
  /-- `write_executor.max_queued_bytes`. -/
  maxQueuedBytes : ℕ

/-- A check: the field it names and its message, when it fails. -/
def requireConfig (ok : Bool) (field message : String) : Except (String × String) Unit :=
  if ok then .ok () else .error (field, message)

theorem requireConfig_bind_ok {ok : Bool} {field message : String}
    {rest : Except (String × String) Unit} :
    (do requireConfig ok field message; rest) = .ok () ↔ ok = true ∧ rest = .ok () := by
  rcases ok with - | -
  · exact ⟨nofun, fun h => absurd h.1 nofun⟩
  · exact ⟨fun h => ⟨rfl, h⟩, fun h => h.2⟩

namespace TransferMemoryConfig

/-- The window of a connection is not estimated higher. -/
def ingressWindowCap : ℕ := 2 * 1024 * 1024

/-- The smallest checkpoint that can be written. -/
def minCheckpointBytes : ℕ := 256

/-- The list of response headers is not read further. -/
def maxHeaderListBytes : ℕ := 64 * 1024

/-- Worst-case buffered footprint of one connection. -/
def connectionIngressFootprint (c : TransferMemoryConfig) (readBufferSize : ℕ) : ℕ :=
  max (min ingressWindowCap c.networkIngressMaxBytes) (min readBufferSize c.networkIngressMaxBytes) +
    min maxHeaderListBytes c.networkIngressMaxBytes

/-- What all connections together may take out of the aggregate. -/
def connectionIngressReserve (c : TransferMemoryConfig) (engine : BudgetEngineConfig) : ℕ :=
  min (c.connectionIngressFootprint engine.readBufferSize * engine.maxConnectionsTotal) u64Max

/-- Validate the budget set. -/
def validate (c : TransferMemoryConfig) (engine : BudgetEngineConfig) :
    Except (String × String) Unit := do
  requireConfig (c.aggregateMaxBytes ≠ 0) "transfer_memory.aggregate_max_bytes"
    "must be greater than zero"
  requireConfig (c.jobMaxBytes ≠ 0) "transfer_memory.job_max_bytes" "must be greater than zero"
  requireConfig (c.networkIngressMaxBytes ≠ 0) "transfer_memory.network_ingress_max_bytes"
    "must be greater than zero"
  requireConfig (c.framesMaxBytes ≠ 0) "transfer_memory.frames_max_bytes"
    "must be greater than zero"
  requireConfig (c.writerMaxBytes ≠ 0) "transfer_memory.writer_max_bytes"
    "must be greater than zero"
  requireConfig (c.checkpointMaxBytes ≠ 0) "transfer_memory.checkpoint_max_bytes"
    "must be greater than zero"
  requireConfig (c.networkIngressMaxBytes ≤ c.jobMaxBytes)
    "transfer_memory.network_ingress_max_bytes" "must be <= transfer_memory.job_max_bytes"
  requireConfig (c.framesMaxBytes ≤ c.jobMaxBytes) "transfer_memory.frames_max_bytes"
    "must be <= transfer_memory.job_max_bytes"
  requireConfig (c.writerMaxBytes ≤ c.jobMaxBytes) "transfer_memory.writer_max_bytes"
    "must be <= transfer_memory.job_max_bytes"
  requireConfig (c.checkpointMaxBytes ≤ c.jobMaxBytes) "transfer_memory.checkpoint_max_bytes"
    "must be <= transfer_memory.job_max_bytes"
  requireConfig (c.jobMaxBytes ≤ c.aggregateMaxBytes) "transfer_memory.job_max_bytes"
    "must be <= transfer_memory.aggregate_max_bytes"
  requireConfig (engine.readBufferSize ≤ c.networkIngressMaxBytes)
    "transfer_memory.network_ingress_max_bytes" "must be >= read_buffer_size (one ingress frame)"
  requireConfig (engine.readBufferSize ≤ c.framesMaxBytes) "transfer_memory.frames_max_bytes"
    "must be >= read_buffer_size (one owned frame)"
  requireConfig (minCheckpointBytes ≤ c.checkpointMaxBytes) "transfer_memory.checkpoint_max_bytes"
    "must admit one minimal serialized checkpoint"
  requireConfig (c.aggregateMaxBytes ≠ u64Max) "transfer_memory.aggregate_max_bytes"
    "must leave headroom below u64::MAX for accounting"
  let reserved := engine.maxConnectionsTotal * c.connectionIngressFootprint engine.readBufferSize +
    c.jobMaxBytes
  requireConfig (reserved ≤ u64Max) "transfer_memory.aggregate_max_bytes"
    "connection footprint reservation overflows"
  requireConfig (reserved ≤ c.aggregateMaxBytes) "transfer_memory.aggregate_max_bytes"
    "must fit max_connections_total connection footprints plus one full job cap"
  requireConfig (engine.jobMaxBytes ≤ c.jobMaxBytes) "write_budget.job_max_bytes"
    "must be <= transfer_memory.job_max_bytes"
  requireConfig (engine.globalMaxBytes ≤ c.aggregateMaxBytes) "write_budget.global_max_bytes"
    "must be <= transfer_memory.aggregate_max_bytes"
  requireConfig (engine.workerReadAheadBytes ≤ c.writerMaxBytes)
    "write_budget.worker_read_ahead_bytes" "must be <= transfer_memory.writer_max_bytes"
  requireConfig (engine.maxQueuedBytes ≤ c.aggregateMaxBytes) "write_executor.max_queued_bytes"
    "must be <= transfer_memory.aggregate_max_bytes"

/-- The caps of the pools of a ledger built from the configuration. -/
def poolCap (c : TransferMemoryConfig) (engine : BudgetEngineConfig) : PoolId → ℕ
  | .controller => c.aggregateMaxBytes - c.connectionIngressReserve engine
  | .job _ => c.jobMaxBytes
  | .component _ .networkIngress => c.networkIngressMaxBytes
  | .component _ .frames => c.framesMaxBytes
  | .component _ .writer => c.writerMaxBytes
  | .component _ .checkpoint => c.checkpointMaxBytes

/-- A validated configuration nests its caps. -/
theorem validate_nested {c : TransferMemoryConfig} {engine : BudgetEngineConfig}
    (h : c.validate engine = .ok ()) :
    c.networkIngressMaxBytes ≤ c.jobMaxBytes ∧ c.framesMaxBytes ≤ c.jobMaxBytes ∧
      c.writerMaxBytes ≤ c.jobMaxBytes ∧ c.checkpointMaxBytes ≤ c.jobMaxBytes ∧
      c.jobMaxBytes ≤ c.aggregateMaxBytes := by
  simp only [validate, requireConfig_bind_ok, decide_eq_true_eq] at h
  obtain ⟨-, -, -, -, -, -, hingress, hframes, hwriter, hcheckpoint, hjob, -⟩ := h
  exact ⟨hingress, hframes, hwriter, hcheckpoint, hjob⟩

theorem poolCap_le {c : TransferMemoryConfig} {engine : BudgetEngineConfig}
    (h : c.validate engine = .ok ()) (p : PoolId) : c.poolCap engine p ≤ u64Max := by
  obtain ⟨hingress, hframes, hwriter, hcheckpoint, hjob⟩ := validate_nested h
  have haggregate := c.aggregate_le
  rcases p with - | j | ⟨j, - | - | - | -⟩
  · exact (Nat.sub_le ..).trans haggregate
  · exact hjob.trans haggregate
  · exact (hingress.trans hjob).trans haggregate
  · exact (hframes.trans hjob).trans haggregate
  · exact (hwriter.trans hjob).trans haggregate
  · exact (hcheckpoint.trans hjob).trans haggregate

end TransferMemoryConfig

/-- The checks of the engine configuration on the write budget. -/
def BudgetEngineConfig.validate (c : BudgetEngineConfig) : Except (String × String) Unit := do
  requireConfig (4096 ≤ c.readBufferSize) "read_buffer_size" "must be at least 4096"
  requireConfig (c.readBufferSize ≤ c.bufferPoolMaxBytes) "buffer_pool_max_bytes"
    "must be >= read_buffer_size"
  requireConfig (c.globalMaxBytes ≠ 0 && c.jobMaxBytes ≠ 0 && c.workerReadAheadBytes ≠ 0)
    "write_budget.*" "must be greater than zero"
  requireConfig (c.jobMaxBytes ≤ c.globalMaxBytes) "write_budget.job_max_bytes"
    "must be <= write_budget.global_max_bytes"
  requireConfig (c.workerReadAheadBytes ≤ c.jobMaxBytes) "write_budget.worker_read_ahead_bytes"
    "must be <= write_budget.job_max_bytes"
  requireConfig (c.readBufferSize ≤ c.workerReadAheadBytes) "write_budget.worker_read_ahead_bytes"
    "must be >= read_buffer_size (one frame quantum)"

/-! ### Nobody waits for ever behind those who wait -/

namespace TransferLedger

variable {cap : PoolId → ℕ} {s : TransferLedger} {k : ℕ}

/-- The handle's call sleeps in the queue of a pool and has no notification. -/
def Asleep (s : TransferLedger) (k : ℕ) : Prop :=
  ∃ p m, (s.handle k).work.current = some (p, m) ∧ (s.pool p).phases (k, m) = .parked ∧
    ((s.pool p).call (k, m)).permit = false

/-- Every handle is out of use, or sleeps inside `reserve`. -/
def AllWaiting (s : TransferLedger) : Prop :=
  ∀ k, (s.handle k).live = none ∧
    ((s.handle k).work = .idle ∨ (s.handle k).work.isAcquiring = true ∧ s.Asleep k)

/-- In such a state a call that has not ended sleeps. -/
theorem AllWaiting.parked (h : s.AllWaiting) (hi : LedgerInv cap s) {p : PoolId} {i : ℕ × ℕ}
    (hne : (s.pool p).phases i ≠ .unused) (hact : ((s.pool p).phases i).isSettled = false) :
    (s.pool p).phases i = .parked ∧ ((s.pool p).call i).permit = false := by
  obtain ⟨k, m⟩ := i
  have hcur := hi.active p k m hne hact
  rcases (h k).2 with hidle | ⟨-, p', m', hcur', hparked, hpermit⟩
  · rw [hidle] at hcur
    cases hcur
  · obtain ⟨rfl, rfl⟩ := Prod.mk.inj (Option.some.inj (hcur'.symm.trans hcur))
    exact ⟨hparked, hpermit⟩

/-- Nobody is about to notify anybody. -/
theorem AllWaiting.not_aboutToNotify (h : s.AllWaiting) (hi : LedgerInv cap s) {p : PoolId}
    {i : ℕ × ℕ} : ¬ (s.pool p).AboutToNotify i := by
  rintro ⟨j, hj⟩
  have hph : ((s.pool p).phases j).isSettled = false ∧ (s.pool p).phases j ≠ .unused ∧
      (s.pool p).phases j ≠ .parked := by
    generalize (s.pool p).phases j = ph at hj
    rcases ph with - | - | - | - | - | ok | ⟨ok, head⟩ | - | - | - | - | head | - <;>
      first | cases hj; done | exact ⟨rfl, nofun, nofun⟩
  exact hph.2.2 (h.parked hi hph.2.1 hph.1).1

/-- What a waiting handle waits with: a reservation that fits its caps. -/
theorem AllWaiting.work (h : s.AllWaiting) (hi : LedgerInv cap s) {p : PoolId} {m : ℕ}
    (hcur : (s.handle k).work.current = some (p, m)) :
    ∃ c n taken todo, (s.handle k).work = .acquiring (.reserve c) n taken (p :: todo) (some m) ∧
      n ≤ tightestCap cap (s.handle k).job c ∧
      taken.reverse ++ p :: todo = PoolId.links (s.handle k).job c := by
  have hgoal := hi.goals k
  have hlive := (h k).1
  rcases (h k).2 with hidle | ⟨hacq, -⟩
  · rw [hidle] at hcur
    cases hcur
  · rcases hw : (s.handle k).work with - | ⟨c | - | dst, n, taken, - | ⟨q, todo⟩, - | m'⟩ |
      ⟨n, todo, call⟩ <;> rw [hw] at hcur hgoal hacq
    all_goals try cases hacq
    all_goals cases hcur
    · exact ⟨c, n, taken, todo, rfl, hgoal.2.1, hgoal.2.2⟩
    · obtain ⟨r, hr, -⟩ := hgoal
      rw [hlive] at hr
      cases hr
    · obtain ⟨r, hr, -⟩ := hgoal
      rw [hlive] at hr
      cases hr

/-- A pool charged by nobody has nobody waiting for it: the head of its queue
would fit, and no wake-up was lost. -/
theorem AllWaiting.not_waiting (h : s.AllWaiting) (hi : LedgerInv cap s)
    (hcap : ∀ p, cap p ≤ u64Max) {p : PoolId} (hzero : ∀ k, s.charge k p = 0) {m : ℕ} :
    (s.handle k).work.current ≠ some (p, m) := by
  intro hcur
  have hout : (s.pool p).pool.outstanding = 0 := by
    rw [hi.conserved p]
    exact Finset.sum_eq_zero fun k _ => hzero k
  -- this call is in the queue, so the queue has a head
  have hqueued : (k, m) ∈ (s.pool p).pool.waiters := by
    rcases (h k).2 with hidle | ⟨-, p', m', hcur', hparked, -⟩
    · rw [hidle] at hcur
      cases hcur
    · obtain ⟨rfl, rfl⟩ := Prod.mk.inj (Option.some.inj (hcur'.symm.trans hcur))
      rw [(hi.pools p').queue.queued, hparked]
      rfl
  obtain ⟨⟨k', m'⟩, rest, hhead⟩ := List.exists_cons_of_ne_nil (List.ne_nil_of_mem hqueued)
  have hhead' : (s.pool p).pool.waiters.head? = some (k', m') := by
    rw [hhead]
    rfl
  have hq : ((s.pool p).phases (k', m')).isQueued = true := by
    rw [← (hi.pools p).queue.queued, hhead]
    exact List.mem_cons_self
  have hact : ((s.pool p).phases (k', m')).isSettled = false ∧
      (s.pool p).phases (k', m') ≠ .unused := by
    generalize (s.pool p).phases (k', m') = ph at hq
    rcases ph with - | - | - | - | - | ok | ⟨ok, head⟩ | - | - | - | - | head | - <;>
      first | cases hq; done | exact ⟨rfl, nofun⟩
  obtain ⟨hparked, hpermit⟩ := h.parked hi hact.2 hact.1
  have hnofit := (hi.pools p).wakeup (k', m') hhead' hparked hpermit (h.not_aboutToNotify hi)
  have hcur' := hi.active p k' m' hact.2 hact.1
  obtain ⟨c, n, taken, todo, hw, hn, hlinks⟩ := h.work hi hcur'
  have hbytes : ((s.pool p).call (k', m')).bytes = n := by
    rw [hi.bytes_eq p k' m' hcur', hw]
    rfl
  have hle : n ≤ cap p := by
    have hmem : p ∈ PoolId.links (s.handle k').job c := by
      rw [← hlinks]
      simp
    simp only [tightestCap, le_min_iff] at hn
    simp only [PoolId.links, List.mem_cons, List.not_mem_nil, or_false] at hmem
    rcases hmem with rfl | rfl | rfl
    · exact hn.1.1
    · exact hn.1.2
    · exact hn.2
  refine hnofit ⟨?_, ?_⟩
  · rw [hout, hbytes, zero_add]
    exact hle.trans (hcap p)
  · rw [hout, hbytes, zero_add, hi.caps p]
    exact hle

/-- Where a waiting handle waits, from what it is charged. -/
theorem AllWaiting.charge_eq_zero (h : s.AllWaiting) (hi : LedgerInv cap s) {p : PoolId}
    (hlater : ∀ c n taken q todo m,
      (s.handle k).work = .acquiring (.reserve c) n taken (q :: todo) (some m) →
      taken.reverse ++ q :: todo = PoolId.links (s.handle k).job c → p ∉ taken) :
    s.charge k p = 0 := by
  obtain ⟨hlive, hidle | ⟨-, q, m, hcur, hparked, -⟩⟩ := h k
  · rw [charge_of_none (by rw [hidle]; rfl), linked_of_none hlive, hidle]
    rfl
  · obtain ⟨c, n, taken, todo, hw, -, hlinks⟩ := h.work hi hcur
    have hweight : ((s.pool q).call (k, m)).weight = 0 := by
      rw [PoolCall.weight, show ((s.pool q).call (k, m)).phase = .parked from hparked]
      rfl
    rw [charge, linked_of_none hlive, underWay_of_current hcur, hweight, ite_self, hw]
    show 0 + (n * taken.count p + 0) = 0
    rw [List.count_eq_zero.mpr (hlater c n taken q todo m hw hlinks)]
    rfl

/-- How far an acquisition has come. -/
theorem links_cases {j : ℕ} {c : Component} {taken todo : List PoolId} {q : PoolId}
    (h : taken.reverse ++ q :: todo = PoolId.links j c) :
    (taken = [] ∧ q = .component j c) ∨ (taken = [.component j c] ∧ q = .job j) ∨
      (taken = [.job j, .component j c] ∧ q = .controller) := by
  obtain ⟨l, rfl⟩ : ∃ l : List PoolId, taken = l.reverse := ⟨taken.reverse, by simp⟩
  rw [List.reverse_reverse, PoolId.links] at h
  rcases l with - | ⟨a, - | ⟨b, - | ⟨d, l⟩⟩⟩
  · exact .inl ⟨rfl, (List.cons.inj h).1⟩
  · obtain ⟨rfl, h₁⟩ := List.cons.inj h
    exact .inr (.inl ⟨rfl, (List.cons.inj h₁).1⟩)
  · obtain ⟨rfl, h₁⟩ := List.cons.inj h
    obtain ⟨rfl, h₂⟩ := List.cons.inj h₁
    exact .inr (.inr ⟨rfl, (List.cons.inj h₂).1⟩)
  · have hlen := congrArg List.length h
    simp at hlen

/-- **Along the order of acquisition nobody is left waiting.** -/
theorem AllWaiting.idle (h : s.AllWaiting) (hi : LedgerInv cap s) (hcap : ∀ p, cap p ≤ u64Max)
    (k : ℕ) : (s.handle k).work = .idle := by
  have hcontroller : ∀ {k m}, (s.handle k).work.current ≠ some (.controller, m) := by
    refine h.not_waiting hi hcap fun k => h.charge_eq_zero hi fun c n taken q todo m _ hlinks => ?_
    rcases links_cases hlinks with ⟨rfl, -⟩ | ⟨rfl, -⟩ | ⟨rfl, -⟩ <;> simp
  -- whoever has taken from a job pool waits for the controller
  have hjob : ∀ {k j m}, (s.handle k).work.current ≠ some (.job j, m) := by
    intro k j m
    refine h.not_waiting hi hcap fun k => h.charge_eq_zero hi fun c n taken q todo m hw hlinks => ?_
    rcases links_cases hlinks with ⟨rfl, -⟩ | ⟨rfl, -⟩ | ⟨-, rfl⟩
    · simp
    · simp
    · exact absurd (by rw [hw]; rfl) hcontroller
  -- whoever has taken from a component waits for the job or the controller
  have hcomponent : ∀ {k j c m}, (s.handle k).work.current ≠ some (.component j c, m) := by
    intro k j c m
    refine h.not_waiting hi hcap fun k => h.charge_eq_zero hi fun c n taken q todo m hw hlinks => ?_
    rcases links_cases hlinks with ⟨rfl, -⟩ | ⟨-, rfl⟩ | ⟨-, rfl⟩
    · simp
    · exact absurd (by rw [hw]; rfl) hjob
    · exact absurd (by rw [hw]; rfl) hcontroller
  rcases (h k).2 with hidle | ⟨-, p, m, hcur, -⟩
  · exact hidle
  · rcases p with - | j | ⟨j, c⟩
    · exact absurd hcur hcontroller
    · exact absurd hcur hjob
    · exact absurd hcur hcomponent

/-! ### One operation at a time -/

/-- The handle an event is about. -/
def subject (s : TransferLedger) : LedgerEvent → ℕ
  | .reserve _ _ _ => s.size
  | .grow k _ => k
  | .shrinkTo k _ => k
  | .reconcile k _ => k
  | .retag k _ => k
  | .drop k => k
  | .advance k => k
  | .cancel k => k

/-- Handle `k'` and its calls stay as they are. -/
def SameHandle (s s' : TransferLedger) (k' : ℕ) : Prop :=
  s'.handle k' = s.handle k' ∧ ∀ p m, (s'.pool p).phases (k', m) = (s.pool p).phases (k', m)

theorem SameHandle.setHandle {k' : ℕ} (h : LedgerHandle) (hne : k' ≠ k) :
    SameHandle s (s.setHandle k h) k' :=
  ⟨handle_setHandle_of_ne h hne, fun _ _ => rfl⟩

theorem SameHandle.setPool {k' m : ℕ} {p : PoolId} {q : PoolSystem (ℕ × ℕ)}
    (hq : (s.pool p).Moves q (k, m)) (hne : k' ≠ k) : SameHandle s (s.setPool p q) k' :=
  ⟨rfl, fun _ _ => (phases_setPool hq (.inr fun he => hne (congrArg Prod.fst he))).1⟩

/-- A new call leaves everybody else alone. -/
theorem moves_of_begin {q q' : PoolSystem (ℕ × ℕ)} {i : ℕ × ℕ} {e : PoolCallEvent (ℕ × ℕ)} {n : ℕ}
    (he : e = .acquire i n ∨ e = .release i n) (hq : q.step e = some q') :
    q.Moves q' i ∧ (q'.phases i = .probing ∨ q'.phases i = .releasing) := by
  rcases he with rfl | rfl
  · simp only [PoolSystem.step] at hq
    split at hq
    · rw [← Option.some.inj hq]
      have hm : q.Moves (q.begin i n .probing) i := PoolSystem.moves_begin n .probing
      refine ⟨{ hm with }, .inl ?_⟩
      rw [PoolSystem.phases_begin, Function.update_self]
    · cases hq
  · simp only [PoolSystem.step] at hq
    split at hq
    · rw [← Option.some.inj hq]
      refine ⟨PoolSystem.moves_begin n .releasing, .inr ?_⟩
      rw [PoolSystem.phases_begin, Function.update_self]
    · cases hq

/-- The call of handle `k` is about to be turned away and to sleep. -/
def WillPark (s : TransferLedger) (k : ℕ) : Prop :=
  ∃ p m, (s.handle k).work.current = some (p, m) ∧ (s.pool p).phases (k, m) = .polling ∧
    ((s.pool p).pool.pollHead (k, m) ((s.pool p).call (k, m)).bytes).1 ≠ .acquired

instance (k : ℕ) : Decidable (s.WillPark k) :=
  decidable_of_iff
    (∃ c ∈ (s.handle k).work.current, (s.pool c.1).phases (k, c.2) = .polling ∧
      ((s.pool c.1).pool.pollHead (k, c.2) ((s.pool c.1).call (k, c.2)).bytes).1 ≠ .acquired)
    ⟨fun ⟨⟨p, m⟩, h⟩ => ⟨p, m, h⟩, fun ⟨p, m, h⟩ => ⟨(p, m), h⟩⟩

/-- What a step of handle `k` does to others, and how its call falls asleep. -/
structure HandleStep (s s' : TransferLedger) (k : ℕ) : Prop where
  size_le : s.size ≤ s'.size
  same : ∀ k', k' ≠ k → SameHandle s s' k'
  parked : ∀ p m, (s'.handle k).work.current = some (p, m) →
    (s'.pool p).phases (k, m) = .parked →
      s.WillPark k ∧ (s'.handle k).live = (s.handle k).live

theorem HandleStep.setHandle {h : LedgerHandle} (hnone : h.work.current = none) :
    HandleStep s (s.setHandle k h) k where
  size_le := le_rfl
  same := fun _ hne => .setHandle h hne
  parked := fun p m hcur => by
    rw [handle_setHandle_self, hnone] at hcur
    cases hcur

theorem HandleStep.startCall {p : PoolId} {e : ℕ × ℕ → PoolCallEvent (ℕ × ℕ)} {n : ℕ}
    (he : ∀ i, e i = .acquire i n ∨ e i = .release i n) {w : ℕ → LedgerWork}
    (hw : ∀ m, (w m).current = some (p, m)) {s' : TransferLedger}
    (hs : s.startCall k p e w = some s') : HandleStep s s' k := by
  obtain ⟨q, hq, rfl⟩ := startCall_cases hs
  obtain ⟨hm, hphase⟩ := moves_of_begin (he _) hq
  refine ⟨le_rfl, fun k' hne => ?_, fun p' m hcur hparked => ?_⟩
  · have h₁ : SameHandle s (s.setPool p q) k' := .setPool hm hne
    exact ⟨(handle_setHandle_of_ne _ hne).trans h₁.1, h₁.2⟩
  · rw [handle_setHandle_self] at hcur
    obtain ⟨rfl, rfl⟩ := Prod.mk.inj (Option.some.inj ((hw _).symm.trans hcur))
    have hq' : q.phases (k, (s.handle k).calls) = .parked := by
      rw [← hparked]
      exact congrArg (fun x : PoolSystem (ℕ × ℕ) => x.phases _) (pool_setPool_self p q).symm
    rcases hphase with h | h <;> rw [h] at hq' <;> cases hq'

/-- A call falls asleep only when the head of the queue does not fit or
another ticket is in front. -/
theorem parked_of_next {q q' : PoolSystem (ℕ × ℕ)} {i : ℕ × ℕ}
    (hq : q.next i (q.phases i) = some q') (hparked : q'.phases i = .parked) :
    q.phases i = .polling ∧ (q.pool.pollHead i (q.call i).bytes).1 ≠ .acquired := by
  rcases hph : q.phases i with - | - | - | - | - | ok | ⟨ok, head⟩ | - | - | - | - | head | - <;>
    rw [hph] at hq
  · cases hq
  · simp only [PoolSystem.next] at hq
    split at hq <;> rw [← Option.some.inj hq, PoolSystem.phases_setPhase, Function.update_self]
      at hparked <;> cases hparked
  · rw [← Option.some.inj hq, PoolSystem.phases_setPhase, Function.update_self] at hparked
    cases hparked
  · simp only [PoolSystem.next] at hq
    split at hq
    · rw [← Option.some.inj hq, PoolSystem.phases_setPhase, Function.update_self] at hparked
      cases hparked
    · next hno => exact ⟨rfl, fun hacq => hno _ (Prod.ext hacq rfl)⟩
  · simp only [PoolSystem.next] at hq
    split at hq
    · rw [← Option.some.inj hq, PoolSystem.phases_setPhase, Function.update_self] at hparked
      cases hparked
    · cases hq
  · rw [← Option.some.inj hq, PoolSystem.phases_setPhase, Function.update_self] at hparked
    cases hparked
  · rw [← Option.some.inj hq, PoolSystem.phases_notifyOne, PoolSystem.phases_setPhase,
      Function.update_self] at hparked
    rcases ok <;> cases hparked
  · cases hq
  · cases hq
  · cases hq
  · simp only [PoolSystem.next] at hq
    split at hq <;> rw [← Option.some.inj hq, PoolSystem.phases_setPhase, Function.update_self]
      at hparked <;> cases hparked
  · rw [← Option.some.inj hq, PoolSystem.phases_notifyOne, PoolSystem.phases_setPhase,
      Function.update_self] at hparked
    cases hparked
  · cases hq

theorem HandleStep.stepCall (hi : LedgerInv cap s) {p : PoolId} {m : ℕ}
    (hcur : (s.handle k).work.current = some (p, m)) {s' : TransferLedger}
    (hs : s.stepCall k p m = some s') : HandleStep s s' k := by
  obtain ⟨q, hq, rfl⟩ := Option.map_eq_some_iff.mp hs
  have hb := PoolSystem.balanced_of_next hq hi.release_le
  refine ⟨le_rfl, fun k' hne => .setPool hb.toMoves hne, fun p' m' hcur' hparked => ?_⟩
  obtain ⟨rfl, rfl⟩ := Prod.mk.inj (Option.some.inj (hcur.symm.trans hcur'))
  rw [pool_setPool_self] at hparked
  obtain ⟨hpoll, hfull⟩ := parked_of_next hq hparked
  exact ⟨⟨p, m, hcur, hpoll, hfull⟩, rfl⟩

theorem HandleStep.setWork {w : LedgerWork} (hnone : w.current = none) :
    HandleStep s (s.setWork k w) k := .setHandle hnone

theorem HandleStep.acquired (n : ℕ) (goal : AcquireGoal) :
    HandleStep s (s.acquired cap k n goal) k := by
  rcases goal with c | - | dst
  · exact .setHandle rfl
  · exact .setHandle rfl
  · rw [TransferLedger.acquired]
    split
    · exact .setWork rfl
    · exact .setHandle rfl

/-- An event of one call, by what the call is doing. -/
theorem HandleStep.advance (hi : LedgerInv cap s) {s' : TransferLedger}
    (hs : s.advance cap k (s.handle k).work = some s') : HandleStep s s' k := by
  rcases hw : (s.handle k).work with - | ⟨goal, n, taken, - | ⟨p, todo⟩, - | m⟩ |
    ⟨n, - | ⟨p, todo⟩, - | m⟩ <;> rw [hw] at hs
  · cases hs
  · rw [← Option.some.inj hs]
    exact .acquired n goal
  · rw [← Option.some.inj hs]
    exact .acquired n goal
  · have hs' : s.startCall k p (fun i => .acquire i n)
        (fun m => .acquiring goal n taken (p :: todo) (some m)) = some s' := hs
    exact .startCall (fun _ => .inl rfl) (fun _ => rfl) hs'
  · simp only [TransferLedger.advance] at hs
    split at hs
    · rw [← Option.some.inj hs]
      exact .setWork (by rcases todo <;> rfl)
    · rw [← Option.some.inj hs]
      exact .setWork (by rcases taken <;> rfl)
    · rw [← Option.some.inj hs]
      exact .setWork (by rcases taken <;> rfl)
    · exact .stepCall hi (by rw [hw]; rfl) hs
  · rw [← Option.some.inj hs]
    exact .setWork rfl
  · rw [← Option.some.inj hs]
    exact .setWork rfl
  · have hs' : s.startCall k p (fun i => .release i n)
        (fun m => .releasing n (p :: todo) (some m)) = some s' := hs
    exact .startCall (fun _ => .inr rfl) (fun _ => rfl) hs'
  · simp only [TransferLedger.advance] at hs
    split at hs
    · rw [← Option.some.inj hs]
      exact .setWork (by rcases todo <;> rfl)
    · exact .stepCall hi (by rw [hw]; rfl) hs

/-- A call that is dropped gives back what it holds. -/
theorem HandleStep.cancel {s' : TransferLedger}
    (hs : s.cancel k (s.handle k).work = some s') : HandleStep s s' k := by
  rcases hw : (s.handle k).work with - | ⟨goal, n, taken, - | ⟨p, todo⟩, - | m⟩ | ⟨n, todo, call⟩ <;>
    rw [hw] at hs
  · cases hs
  · cases hs
  · cases hs
  · cases hs
  · obtain ⟨q, hq, rfl⟩ := Option.map_eq_some_iff.mp hs
    obtain ⟨hb, hphase⟩ := PoolSystem.balanced_of_cancel hq
    refine ⟨le_rfl, fun k' hne => .setPool hb.toMoves hne, fun p' m' hcur' hparked => ?_⟩
    have hcur : (s.handle k).work.current = some (p, m) := by
      rw [hw]
      rfl
    obtain ⟨rfl, rfl⟩ := Prod.mk.inj (Option.some.inj (hcur.symm.trans hcur'))
    rw [pool_setPool_self, hphase] at hparked
    cases hparked
  · cases hs

/-- An operation begins on handle `k`, or is refused at once. -/
structure Begins (s s' : TransferLedger) (k : ℕ) : Prop where
  size_le : s.size ≤ s'.size
  same : ∀ k', k' ≠ k → SameHandle s s' k'
  current : (s'.handle k).work.current = none

theorem Begins.handleStep {s' : TransferLedger} (h : Begins s s' k) : HandleStep s s' k where
  size_le := h.size_le
  same := h.same
  parked := fun p m hcur => by
    rw [h.current] at hcur
    cases hcur

theorem Begins.onLive {f : TransferReservation → TransferLedger} {s' : TransferLedger}
    (hs : s.onLive k f = some s')
    (hf : ∀ r, f r = s ∨ ∃ h : LedgerHandle, h.work.current = none ∧ f r = s.setHandle k h) :
    Begins s s' k := by
  obtain ⟨r, -, hidle, rfl⟩ := onLive_cases hs
  rcases hf r with h | ⟨h, hnone, hset⟩
  · rw [h]
    exact ⟨le_rfl, fun _ _ => ⟨rfl, fun _ _ => rfl⟩, by rw [hidle]; rfl⟩
  · rw [hset]
    refine ⟨le_rfl, fun _ hne => .setHandle h hne, ?_⟩
    rw [handle_setHandle_self]
    exact hnone

/-- Either nothing happens, or one idle handle changes. -/
theorem shrinkTo_cases (k bytes : ℕ) (r : TransferReservation) :
    s.shrinkTo k bytes r = s ∨
      ∃ h : LedgerHandle, h.work.current = none ∧ s.shrinkTo k bytes r = s.setHandle k h := by
  rw [TransferLedger.shrinkTo]
  split_ifs
  · exact .inl rfl
  · exact .inr ⟨_, rfl, rfl⟩

/-- An event is the beginning of an operation, or a step of the one under way. -/
theorem begins_of_step (hi : LedgerInv cap s) {e : LedgerEvent} {s' : TransferLedger}
    (hs : s.step cap e = some s') :
    Begins s s' (s.subject e) ∨
      s.advance cap (s.subject e) (s.handle (s.subject e)).work = some s' ∨
      s.cancel (s.subject e) (s.handle (s.subject e)).work = some s' := by
  rcases e with ⟨j, c, bytes⟩ | ⟨k, extra⟩ | ⟨k, bytes⟩ | ⟨k, actual⟩ | ⟨k, dst⟩ | k | k | k
  · left
    show Begins s s' s.size
    rw [← Option.some.inj hs, TransferLedger.reserve]
    split_ifs
    · exact ⟨le_rfl, fun _ _ => ⟨rfl, fun _ _ => rfl⟩, by rw [(hi.unused s.size le_rfl).2]; rfl⟩
    · refine ⟨Nat.le_succ _, fun k' hne => ⟨handle_setHandle_of_ne _ hne, fun _ _ => rfl⟩, ?_⟩
      show ((s.setHandle s.size _).handle s.size).work.current = none
      rw [handle_setHandle_self]
      rfl
  · refine .inl (.onLive hs fun r => ?_)
    rw [TransferLedger.grow]
    split_ifs
    · exact .inl rfl
    · exact .inl rfl
    · exact .inr ⟨_, rfl, rfl⟩
  · exact .inl (.onLive hs fun r => shrinkTo_cases k bytes r)
  · refine .inl (.onLive hs fun r => ?_)
    rw [TransferLedger.reconcile]
    split_ifs
    · exact shrinkTo_cases k actual r
    · exact .inl rfl
  · refine .inl (.onLive hs fun r => ?_)
    rw [TransferLedger.retag]
    split_ifs
    · exact .inl rfl
    · exact .inl rfl
    · exact .inr ⟨_, rfl, rfl⟩
  · exact .inl (.onLive hs fun r => .inr ⟨_, rfl, rfl⟩)
  · exact .inr (.inl hs)
  · exact .inr (.inr hs)

/-- **Every operation is about one handle.** -/
theorem handleStep_of_step (hi : LedgerInv cap s) {e : LedgerEvent} {s' : TransferLedger}
    (hs : s.step cap e = some s') : HandleStep s s' (s.subject e) := by
  rcases begins_of_step hi hs with hbegins | hadv | hcan
  · exact hbegins.handleStep
  · exact .advance hi hadv
  · exact .cancel hcan

/-- A release leaves the reservation as it is. -/
theorem advance_releasing {s' : TransferLedger}
    (hacq : (s.handle k).work.isAcquiring = false)
    (hs : s.advance cap k (s.handle k).work = some s') :
    (s'.handle k).live = (s.handle k).live ∧ (s'.handle k).work.isAcquiring = false := by
  rcases hw : (s.handle k).work with - | ⟨goal, n, taken, todo, call⟩ |
    ⟨n, - | ⟨p, todo⟩, - | m⟩ <;> rw [hw] at hs hacq
  · cases hs
  · cases hacq
  · rw [← Option.some.inj hs, setWork, handle_setHandle_self]
    exact ⟨rfl, rfl⟩
  · rw [← Option.some.inj hs, setWork, handle_setHandle_self]
    exact ⟨rfl, rfl⟩
  · simp only [TransferLedger.advance] at hs
    obtain ⟨q, -, rfl⟩ := startCall_cases hs
    rw [handle_setHandle_self]
    exact ⟨rfl, rfl⟩
  · simp only [TransferLedger.advance] at hs
    split at hs
    · rw [← Option.some.inj hs, setWork, handle_setHandle_self]
      exact ⟨rfl, rfl⟩
    · obtain ⟨q, -, rfl⟩ := Option.map_eq_some_iff.mp hs
      show _ ∧ (s.handle k).work.isAcquiring = false
      rw [hw]
      exact ⟨rfl, rfl⟩

end TransferLedger

end KDown
