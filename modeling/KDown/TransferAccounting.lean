/-
KDown/TransferAccounting.lean

The byte counters of a transfer (metrics/counters.rs), and what the
single-stream loop charges to them (job/controller.rs).

Every worker has counters of its own, which are folded into one snapshot.  The
loop of a sequential job uses the first ones: a chunk is charged to `network`
and `completed` once its write is acknowledged, the resumed prefix is charged
to `reused` at the start, and a body that breaks off is charged to `wasted`
when it is tried again.

The last charge takes everything the broken body has written, although the
retry keeps it, and a failed request starts over at offset zero with the old
charges in place.  A chunk that is refused before its write is not charged at
all.  `SequentialAccount.Balanced` is what holds of the counters as long as none
of this happens.

The account carries the loop's state and, beside the counters, how many payload
bytes the bodies have delivered.
-/
import KDown.Sequential

namespace KDown

/-! ### Counters -/

/-- The byte counters of one worker. -/
structure WorkerCounters where
  networkBytes : ℕ
  completedBytes : ℕ
  reusedBytes : ℕ
  wastedBytes : ℕ
  deriving DecidableEq, Repr

namespace WorkerCounters

/-- Nothing was transferred. -/
def zero : WorkerCounters := ⟨0, 0, 0, 0⟩

/-- Bytes came from the network. -/
def addNetwork (c : WorkerCounters) (n : ℕ) : WorkerCounters :=
  { c with networkBytes := c.networkBytes + n }

/-- Bytes were completed. -/
def addCompleted (c : WorkerCounters) (n : ℕ) : WorkerCounters :=
  { c with completedBytes := c.completedBytes + n }

/-- Bytes of an earlier run were taken over. -/
def addReused (c : WorkerCounters) (n : ℕ) : WorkerCounters :=
  { c with reusedBytes := c.reusedBytes + n }

/-- Bytes were received for nothing. -/
def addWasted (c : WorkerCounters) (n : ℕ) : WorkerCounters :=
  { c with wastedBytes := c.wastedBytes + n }

end WorkerCounters

/-- The folded view of all workers' counters. -/
structure ProgressSnapshot where
  networkBytes : ℕ
  completedBytes : ℕ
  reusedBytes : ℕ
  wastedBytes : ℕ
  deriving DecidableEq, Repr

/-- Fold all worker counters into one snapshot. -/
def foldCounters (workers : List WorkerCounters) : ProgressSnapshot :=
  workers.foldl
    (fun acc c =>
      { networkBytes := acc.networkBytes + c.networkBytes
        completedBytes := acc.completedBytes + c.completedBytes
        reusedBytes := acc.reusedBytes + c.reusedBytes
        wastedBytes := acc.wastedBytes + c.wastedBytes })
    ⟨0, 0, 0, 0⟩

/-- The source's own check of a snapshot. -/
def ProgressSnapshot.accountingConsistent (p : ProgressSnapshot) : Bool :=
  p.wastedBytes ≤ p.networkBytes && p.completedBytes ≤ p.networkBytes

/-- A snapshot is the sum of the counters, field by field. -/
theorem foldCounters_eq (workers : List WorkerCounters) :
    foldCounters workers =
      { networkBytes := (workers.map (·.networkBytes)).sum
        completedBytes := (workers.map (·.completedBytes)).sum
        reusedBytes := (workers.map (·.reusedBytes)).sum
        wastedBytes := (workers.map (·.wastedBytes)).sum } := by
  have hfold : ∀ acc : ProgressSnapshot,
      workers.foldl
        (fun acc c =>
          { networkBytes := acc.networkBytes + c.networkBytes
            completedBytes := acc.completedBytes + c.completedBytes
            reusedBytes := acc.reusedBytes + c.reusedBytes
            wastedBytes := acc.wastedBytes + c.wastedBytes }) acc =
      { networkBytes := acc.networkBytes + (workers.map (·.networkBytes)).sum
        completedBytes := acc.completedBytes + (workers.map (·.completedBytes)).sum
        reusedBytes := acc.reusedBytes + (workers.map (·.reusedBytes)).sum
        wastedBytes := acc.wastedBytes + (workers.map (·.wastedBytes)).sum } := by
    induction workers with
    | nil => intro acc; rfl
    | cons c rest ih =>
      intro acc
      rw [List.foldl_cons, ih]
      simp only [List.map_cons, List.sum_cons, Nat.add_assoc]
  rw [foldCounters, hfold]
  simp only [Nat.zero_add]

/-! ### The account of a sequential job -/

/-- The loop with its counters. -/
structure SequentialAccount where
  loop : SequentialState
  counters : WorkerCounters
  writtenThisStream : ℕ
  /-- Payload bytes the bodies have delivered. -/
  received : ℕ

namespace SequentialState

variable (cfg : SequentialConfig) (s : SequentialState)

/-- The chunk passes the checks and its write succeeds. -/
def acknowledges (limit : Option ByteRange) (delivered len : ℕ)
    (failure : Option DownloadError) : Bool :=
  limitAccepts limit delivered len && !cfg.expectedSize.any (· < s.offset + len) &&
    failure.isNone

/-- The failure is tried again. -/
def retries (e : DownloadError) : Bool := (cfg.retry.decide e s.attempt).isSome

/-- A failed request starts over with a new file. -/
def startsOver (e : DownloadError) (disk : DiskOutcome) : Bool :=
  s.retries cfg e && disk.openFailure.isNone

end SequentialState

namespace SequentialAccount

variable (cfg : SequentialConfig)

/-- What an event charges. -/
def charge (a : SequentialAccount) : SequentialEvent → SequentialAccount
  | .respond status headers _ _ =>
      match transfer (a.loop.intent cfg) status headers with
      | .ok _ => { a with writtenThisStream := 0 }
      | .error _ => a
  | .chunk len failure _ _ =>
      match a.loop.phase with
      | .streaming limit delivered =>
          let a := { a with received := a.received + len }
          -- charged after the write, not at receipt
          if a.loop.acknowledges cfg limit delivered len failure then
            { a with
              counters := (a.counters.addNetwork len).addCompleted len
              writtenThisStream := a.writtenThisStream + len }
          else a
      | _ => a
  | .bodyFault e _ =>
      -- the whole stream, whatever the retry keeps of it
      if a.loop.retries cfg e then { a with counters := a.counters.addWasted a.writtenThisStream }
      else a
  | _ => a

/-- One event of the loop, with its charges. -/
def step (a : SequentialAccount) (e : SequentialEvent) : Option SequentialAccount :=
  (sequentialStep cfg a.loop e).map fun s => { a.charge cfg e with loop := s }

/-- The account of a job that starts. -/
def init : SequentialAccount where
  loop := sequentialInit cfg
  counters := WorkerCounters.zero.addReused cfg.plan.contiguousPrefix
  writtenThisStream := 0
  received := 0

/-- No delivered byte is refused, no request starts over after the first byte,
and no body is tried again after one. -/
def keepsCount (a : SequentialAccount) : SequentialEvent → Bool
  | .chunk len failure _ _ =>
      match a.loop.phase with
      | .streaming limit delivered =>
          len = 0 || a.loop.acknowledges cfg limit delivered len failure
      | _ => true
  | .respond status headers challenge disk =>
      match transfer (a.loop.intent cfg) status headers with
      | .ok _ => true
      | .error e =>
          challenge.isSome && cfg.hasCredentialProvider || a.loop.offset = 0 ||
            !a.loop.startsOver cfg e disk
  | .requestFault e disk => a.loop.offset = 0 || !a.loop.startsOver cfg e disk
  | .bodyFault e _ => a.writtenThisStream = 0 || !a.loop.retries cfg e
  | _ => true

end SequentialAccount

/-! ### Where an event leaves the offset -/

namespace SequentialState

variable {cfg : SequentialConfig} {s s' : SequentialState}

/-- The tracker's frontier stands at the offset, which is `n`. -/
def StandsAt (s : SequentialState) (n : ℕ) : Prop :=
  s.offset = n ∧ s.durable.acknowledgedThrough = n

theorem admissibleThrough_eq (t : DurableRangeTracker) :
    t.admissibleThrough = t.acknowledgedThrough := by
  rw [DurableRangeTracker.admissibleThrough]
  cases t.mode <;> rfl

theorem StandsAt.restartAt {n attempt : ℕ} (h : s.StandsAt n)
    (sink : Except DownloadError OutputSession) : (s.restartAt attempt n sink).StandsAt n := by
  cases sink with
  | error e => exact h
  | ok next => exact ⟨rfl, h.2⟩

theorem StandsAt.afterSave {n : ℕ} (h : s.StandsAt n) (save : SaveOutcome) :
    (s.afterSave save).StandsAt n := by
  cases save <;> exact h

/-- A failed request that does not start over leaves the offset alone. -/
theorem StandsAt.transferFailed {n : ℕ} {e : DownloadError} {disk : DiskOutcome}
    (h : s.StandsAt n) (hok : n = 0 ∨ s.startsOver cfg e disk = false) :
    (s.transferFailed cfg e disk).StandsAt n := by
  have haborted : StandsAt { s with sink := s.sink.abort disk.removed } n := h
  unfold SequentialState.transferFailed
  simp only
  cases hd : cfg.retry.decide e s.attempt with
  | none => exact h
  | some next =>
    cases hok with
    | inl hzero =>
      subst hzero
      exact haborted.restartAt _
    | inr hno =>
      -- the new file could not be created
      rw [startsOver, retries, hd] at hno
      cases hopen : disk.openFailure with
      | none =>
        rw [hopen] at hno
        cases hno
      | some err => exact h

theorem StandsAt.challenged {n : ℕ} (h : s.StandsAt n) (decision : CredentialDecision) :
    (s.challenged decision).StandsAt n := by
  unfold SequentialState.challenged
  split
  · cases decision <;> exact h
  · exact h

/-- A response that does not start over leaves the bytes where they were. -/
theorem StandsAt.respond {n status : ℕ} {headers : Headers}
    {challenge : Option CredentialDecision} {disk : DiskOutcome} (h : s.StandsAt n)
    (hok : ∀ e, transfer (s.intent cfg) status headers = .error e →
      (challenge.isSome && cfg.hasCredentialProvider) = true ∨ n = 0 ∨
        s.startsOver cfg e disk = false) :
    (s.respond cfg status headers challenge disk).StandsAt n := by
  unfold SequentialState.respond
  cases ht : transfer (s.intent cfg) status headers with
  | ok response => exact h
  | error e =>
    simp only
    split
    · exact h.challenged _
    · rename_i hnone
      refine h.transferFailed ((hok e ht).resolve_left fun hasked => ?_)
      rw [Bool.and_eq_true, Option.isSome_iff_exists] at hasked
      obtain ⟨⟨decision, hchallenge⟩, hprovider⟩ := hasked
      exact hnone decision hchallenge hprovider

/-- A body fault continues at the frontier, which is the offset. -/
theorem StandsAt.bodyFault {n : ℕ} (h : s.StandsAt n) (e : DownloadError) (disk : DiskOutcome) :
    (s.bodyFault cfg e disk).StandsAt n := by
  unfold SequentialState.bodyFault
  split
  · exact h
  simp only [admissibleThrough_eq, h.2]
  split
  · split_ifs with hpos
    · exact h.restartAt _
    · have hzero : n = 0 := Nat.eq_zero_of_not_pos hpos
      subst hzero
      exact h.restartAt _
  · exact h

/-- An acknowledged chunk moves both by its length. -/
theorem StandsAt.chunk {n delivered len : ℕ} {limit : Option ByteRange}
    {failure : Option DownloadError} (h : s.StandsAt n)
    (hack : s.acknowledges cfg limit delivered len failure = true) (save : SaveOutcome)
    (disk : DiskOutcome) :
    (s.chunk cfg limit delivered len failure save disk).StandsAt (n + len) := by
  simp only [acknowledges, Bool.and_eq_true, Bool.not_eq_true', Option.isNone_iff_eq_none] at hack
  obtain ⟨⟨hlimit, hsize⟩, hfail⟩ := hack
  have hmoved : ∀ phase sink, StandsAt
      { s with
        phase := phase
        sink := sink
        offset := s.offset + len
        durable := s.durable.pageCacheAck (s.offset + len) } (n + len) := by
    intro phase sink
    refine ⟨by rw [h.1], ?_⟩
    show (s.durable.pageCacheAck (s.offset + len)).acknowledgedThrough = n + len
    rw [DurableRangeTracker.pageCacheAck, h.1, h.2]
    split_ifs with hlt
    · rfl
    · rw [h.2]
      omega
  unfold SequentialState.chunk
  simp only [hlimit, hsize, hfail, Bool.not_true, Bool.false_eq_true, if_false]
  split_ifs
  · apply StandsAt.afterSave
    exact hmoved _ _
  · exact hmoved _ _

/-- Any other chunk moves neither. -/
theorem StandsAt.chunk_refused {n delivered len : ℕ} {limit : Option ByteRange}
    {failure : Option DownloadError} (h : s.StandsAt n)
    (hack : s.acknowledges cfg limit delivered len failure = false) (save : SaveOutcome)
    (disk : DiskOutcome) :
    (s.chunk cfg limit delivered len failure save disk).StandsAt n := by
  unfold SequentialState.chunk
  split_ifs with hlimit hsize
  · exact h.bodyFault _ disk
  · exact h
  · cases failure with
    | none =>
      rw [Bool.not_eq_true, Bool.not_eq_false'] at hlimit
      rw [Bool.not_eq_true] at hsize
      rw [acknowledges, hlimit, hsize] at hack
      cases hack
    | some e => cases e <;> exact h

end SequentialState

/-! ### The balance -/

namespace SequentialAccount

variable {cfg : SequentialConfig} {a a' : SequentialAccount}

/-- Every delivered byte is charged once, none is wasted, and the offset is what
was reused and what was completed. -/
structure Balanced (cfg : SequentialConfig) (a : SequentialAccount) : Prop where
  stands : a.loop.StandsAt (cfg.plan.contiguousPrefix + a.received)
  network : a.counters.networkBytes = a.received
  completed : a.counters.completedBytes = a.received
  reused : a.counters.reusedBytes = cfg.plan.contiguousPrefix
  wasted : a.counters.wastedBytes = 0

theorem balanced_init (cfg : SequentialConfig) : Balanced cfg (init cfg) where
  stands := by
    refine ⟨rfl, ?_⟩
    show ((DurableRangeTracker.new cfg.durability).pageCacheAck
      cfg.plan.contiguousPrefix).acknowledgedThrough = cfg.plan.contiguousPrefix
    rw [DurableRangeTracker.pageCacheAck]
    split_ifs with hlt
    · rfl
    · exact (Nat.eq_zero_of_not_pos hlt).symm
  network := rfl
  completed := rfl
  reused := Nat.zero_add _
  wasted := rfl

/-- The loop moves on and nothing is charged. -/
theorem Balanced.setLoop (h : Balanced cfg a) {s : SequentialState} {n : ℕ}
    (hs : s.StandsAt (cfg.plan.contiguousPrefix + a.received)) :
    Balanced cfg { a with loop := s, writtenThisStream := n } :=
  ⟨hs, h.network, h.completed, h.reused, h.wasted⟩

/-- **Every event that meets the condition keeps the balance.** -/
theorem Balanced.step (h : Balanced cfg a) {e : SequentialEvent}
    (hok : a.keepsCount cfg e = true) (hstep : a.step cfg e = some a') : Balanced cfg a' := by
  obtain ⟨s', hloop, rfl⟩ := Option.map_eq_some_iff.mp hstep
  have hs := h.stands
  cases e with
  | cancel | endOfBody =>
    simp only [sequentialStep] at hloop
    split at hloop <;> cases hloop <;> exact h.setLoop hs
  | covered | refused =>
    simp only [sequentialStep] at hloop
    split at hloop
    · split_ifs at hloop
      cases hloop
      exact h.setLoop hs
    · cases hloop
  | refresh save =>
    simp only [sequentialStep] at hloop
    split at hloop
    · cases save <;> cases hloop <;> exact h.setLoop hs
    · cases hloop
  | respond status headers challenge disk =>
    simp only [sequentialStep] at hloop
    split at hloop
    · split_ifs at hloop
      cases hloop
      simp only [keepsCount] at hok
      have hstands : (a.loop.respond cfg status headers challenge disk).StandsAt
          (cfg.plan.contiguousPrefix + a.received) := by
        refine hs.respond fun e he => ?_
        rw [he] at hok
        simpa [hs.1, or_assoc] using hok
      cases ht : transfer (a.loop.intent cfg) status headers with
      | ok response =>
        simp only [charge, ht]
        exact h.setLoop hstands
      | error err =>
        simp only [charge, ht]
        exact h.setLoop hstands
    · cases hloop
  | requestFault error disk =>
    simp only [sequentialStep] at hloop
    split at hloop
    · split_ifs at hloop
      cases hloop
      refine h.setLoop (hs.transferFailed ?_)
      simpa [keepsCount, hs.1] using hok
    · cases hloop
  | chunk len failure save disk =>
    simp only [sequentialStep] at hloop
    split at hloop
    · rename_i limit delivered hphase
      cases hloop
      simp only [keepsCount, hphase, Bool.or_eq_true, decide_eq_true_eq] at hok
      simp only [charge, hphase]
      split_ifs with hack
      · refine ⟨?_, ?_, ?_, h.reused, h.wasted⟩
        · rw [← Nat.add_assoc]
          exact hs.chunk hack save disk
        · exact congrArg (· + len) h.network
        · exact congrArg (· + len) h.completed
      · -- a refused chunk is empty
        obtain rfl : len = 0 := hok.resolve_right hack
        exact h.setLoop (hs.chunk_refused (Bool.eq_false_iff.mpr hack) save disk)
    · cases hloop
  | paused save =>
    simp only [sequentialStep] at hloop
    split at hloop
    · cases hloop
      refine h.setLoop ?_
      have hack : SequentialState.StandsAt
          { a.loop with durable := a.loop.durable.pageCacheAck a.loop.offset }
          (cfg.plan.contiguousPrefix + a.received) := by
        refine ⟨hs.1, ?_⟩
        show (a.loop.durable.pageCacheAck a.loop.offset).acknowledgedThrough = _
        rw [DurableRangeTracker.pageCacheAck, hs.1, hs.2, if_neg (lt_irrefl _), hs.2]
      split_ifs
      · exact hack.afterSave save
      · exact hack
    · cases hloop
  | bodyFault error disk =>
    simp only [sequentialStep] at hloop
    split at hloop
    · cases hloop
      simp only [keepsCount, Bool.or_eq_true, decide_eq_true_eq, Bool.not_eq_true'] at hok
      simp only [charge]
      split_ifs with hretry
      · -- the stream that is charged has written nothing
        have hzero : a.writtenThisStream = 0 := hok.resolve_right (by rw [hretry]; decide)
        refine ⟨hs.bodyFault error disk, h.network, h.completed, h.reused, ?_⟩
        show a.counters.wastedBytes + a.writtenThisStream = 0
        rw [hzero, h.wasted]
      · exact h.setLoop (hs.bodyFault error disk)
    · cases hloop

end SequentialAccount

end KDown
