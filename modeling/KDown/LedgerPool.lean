/-
KDown/LedgerPool.lean

One fair byte pool of the transfer-memory ledger (`Pool` and `Ticket` in
io/transfer_ledger.rs), with the calls that use it.

What happens under the pool's mutex is one step; between two steps of a call
any other call may take its own.  An `acquire_fair` call probes, registers a
ticket, looks whether it is the head of the queue and fits, and otherwise
waits for its notification; a ticket leaves the queue under the mutex and
wakes the new head after it.  The notification of a ticket is a one-permit
flag.  A call can be dropped only while it waits.

* `PoolSystem.Inv.step`: the invariant of every interleaving.
* `pool_fair`: first come, first served, and no lost wake-up.
-/
import KDown.FifoHistory
import KDown.IntervalSet
import KDown.Runs

namespace KDown

/-! ### The pool under its mutex -/

/-- The cap and the state that the mutex protects. -/
structure Pool (ι : Type*) where
  cap : ℕ
  outstanding : ℕ
  highWater : ℕ
  /-- Tickets, front first. -/
  waiters : List ι

/-- Outcome of a capacity probe. -/
inductive Probe
  | acquired
  | oversize
  | full
  deriving DecidableEq

/-- Subtraction of 64-bit numbers, which wraps around. -/
def wrappingSub (a b : ℕ) : ℕ := if b ≤ a then a - b else a + 2 ^ 64 - b

namespace Pool

variable {ι : Type*}

/-- A pool that holds nothing. -/
def new (cap : ℕ) : Pool ι where
  cap := cap
  outstanding := 0
  highWater := 0
  waiters := []

/-- The checked addition does not overflow and stays within the cap. -/
def Fits (p : Pool ι) (bytes : ℕ) : Prop :=
  p.outstanding + bytes ≤ u64Max ∧ p.outstanding + bytes ≤ p.cap

instance (p : Pool ι) (bytes : ℕ) : Decidable (p.Fits bytes) :=
  inferInstanceAs (Decidable (_ ∧ _))

/-- The bytes are counted. -/
def charge (p : Pool ι) (bytes : ℕ) : Pool ι :=
  { p with
    outstanding := p.outstanding + bytes
    highWater := max p.highWater (p.outstanding + bytes) }

/-- The request is admitted if it fits. -/
def acquireLocked (p : Pool ι) (bytes : ℕ) : Probe × Pool ι :=
  if p.Fits bytes then (.acquired, p.charge bytes) else (.full, p)

/-- The fast path, closed while anybody waits. -/
def probeAndAcquire (p : Pool ι) (bytes : ℕ) : Probe × Pool ι :=
  if p.cap < bytes then (.oversize, p)
  else if p.waiters ≠ [] then (.full, p)
  else p.acquireLocked bytes

/-- The ticket goes to the end of the queue. -/
def register (p : Pool ι) (ticket : ι) : Pool ι :=
  { p with waiters := p.waiters ++ [ticket] }

/-- The head is woken afterwards. -/
def release (p : Pool ι) (bytes : ℕ) : Option ι × Pool ι :=
  (p.waiters.head?, { p with outstanding := wrappingSub p.outstanding bytes })

@[simp] theorem release_head (p : Pool ι) (bytes : ℕ) :
    (p.release bytes).1 = p.waiters.head? := rfl

@[simp] theorem release_waiters (p : Pool ι) (bytes : ℕ) :
    (p.release bytes).2.waiters = p.waiters := rfl

section Tickets

variable [DecidableEq ι]

/-- Only the head of the queue is admitted. -/
def pollHead (p : Pool ι) (ticket : ι) (bytes : ℕ) : Probe × Pool ι :=
  if p.waiters.head? = some ticket then p.acquireLocked bytes else (.full, p)

/-- Remove the ticket; the new head is woken afterwards. -/
def deregister (p : Pool ι) (ticket : ι) : Option ι × Pool ι :=
  ((p.waiters.erase ticket).head?, { p with waiters := p.waiters.erase ticket })

end Tickets

theorem acquireLocked_acquired {p q : Pool ι} {bytes : ℕ}
    (h : p.acquireLocked bytes = (.acquired, q)) : p.Fits bytes ∧ q = p.charge bytes := by
  rw [acquireLocked] at h
  split at h
  · next hfits => exact ⟨hfits, (Prod.mk.inj h).2.symm⟩
  · cases (Prod.mk.inj h).1

theorem probeAndAcquire_acquired {p q : Pool ι} {bytes : ℕ}
    (h : p.probeAndAcquire bytes = (.acquired, q)) :
    p.waiters = [] ∧ p.Fits bytes ∧ q = p.charge bytes := by
  rw [probeAndAcquire] at h
  split at h
  · cases (Prod.mk.inj h).1
  · split at h
    · cases (Prod.mk.inj h).1
    · next hnil => exact ⟨not_not.mp hnil, acquireLocked_acquired h⟩

theorem pollHead_acquired [DecidableEq ι] {p q : Pool ι} {ticket : ι} {bytes : ℕ}
    (h : p.pollHead ticket bytes = (.acquired, q)) :
    p.waiters.head? = some ticket ∧ p.Fits bytes ∧ q = p.charge bytes := by
  rw [pollHead] at h
  split at h
  · next hhead => exact ⟨hhead, acquireLocked_acquired h⟩
  · cases (Prod.mk.inj h).1

/-- The head of the queue is turned away only when it does not fit. -/
theorem not_fits_of_pollHead [DecidableEq ι] {p : Pool ι} {ticket : ι} {bytes : ℕ}
    (h : (p.pollHead ticket bytes).1 ≠ .acquired) (hhead : p.waiters.head? = some ticket) :
    ¬ p.Fits bytes := by
  intro hfits
  rw [pollHead, if_pos hhead, acquireLocked, if_pos hfits] at h
  exact h rfl

end Pool

/-! ### Calls on the pool -/

/-- What a call does next. -/
inductive PoolPhase (ι : Type*)
  | unused
  /-- `acquire_fair` was called. -/
  | probing
  /-- The probe said full. -/
  | registering
  | polling
  /-- In `notified.await`. -/
  | parked
  /-- The ticket is to leave the queue: after admission, or dropped. -/
  | leaving (admitted : Bool)
  /-- Out of the queue, about to notify the new head. -/
  | handing (admitted : Bool) (head : Option ι)
  | acquired
  | refused
  | cancelled
  /-- `release` was called. -/
  | releasing
  /-- About to notify the head. -/
  | waking (head : Option ι)
  | released
  deriving DecidableEq

namespace PoolPhase

variable {ι : Type*}

/-- The ticket is in the queue. -/
def isQueued : PoolPhase ι → Bool
  | .polling => true
  | .parked => true
  | .leaving _ => true
  | _ => false

/-- Registered, and neither admitted nor dropped. -/
def isOpen : PoolPhase ι → Bool
  | .polling => true
  | .parked => true
  | _ => false

/-- Whom the call is about to notify. -/
def notifies : PoolPhase ι → Option ι
  | .handing _ head => head
  | .waking head => head
  | _ => none

/-- The bytes of the call are counted by the pool. -/
def isCharged : PoolPhase ι → Bool
  | .leaving admitted => admitted
  | .handing admitted _ => admitted
  | .acquired => true
  | .releasing => true
  | _ => false

/-- Neither registered nor admitted. -/
def isEarly : PoolPhase ι → Bool
  | .unused => true
  | .probing => true
  | .registering => true
  | _ => false

end PoolPhase

/-- A call on the pool. -/
structure PoolCall (ι : Type*) where
  bytes : ℕ
  phase : PoolPhase ι
  /-- The stored notification of its ticket. -/
  permit : Bool

/-- The bytes of the call that the pool counts: charged by an acquisition, or
still to be returned by a release. -/
def PoolCall.weight {ι : Type*} (c : PoolCall ι) : ℕ := if c.phase.isCharged then c.bytes else 0

/-- The pool and all calls on it. -/
structure PoolSystem (ι : Type*) where
  pool : Pool ι
  call : ι → PoolCall ι
  /-- When the calls started, registered, were admitted and dropped. -/
  history : FifoHistory ι

/-- A call begins, takes its next step, or is dropped. -/
inductive PoolCallEvent (ι : Type*)
  | acquire (i : ι) (bytes : ℕ)
  | release (i : ι) (bytes : ℕ)
  /-- The next step of a call. -/
  | next (i : ι)
  /-- The waiting future is dropped. -/
  | cancel (i : ι)

namespace PoolSystem

variable {ι : Type*}

/-- A pool on which no call was made. -/
def new (cap : ℕ) : PoolSystem ι where
  pool := .new cap
  call := fun _ => ⟨0, .unused, false⟩
  history := .new

variable [DecidableEq ι]

/-- The call moves on. -/
def setPhase (s : PoolSystem ι) (i : ι) (phase : PoolPhase ι) : PoolSystem ι :=
  { s with call := Function.update s.call i { s.call i with phase := phase } }

/-- The notification of the call's ticket is stored or consumed. -/
def setPermit (s : PoolSystem ι) (i : ι) (permit : Bool) : PoolSystem ι :=
  { s with call := Function.update s.call i { s.call i with permit := permit } }

/-- `notify_one` on the ticket, if there is one. -/
def notifyOne (s : PoolSystem ι) : Option ι → PoolSystem ι
  | none => s
  | some w => s.setPermit w true

/-- The call is admitted: its bytes are charged. -/
def admitted (s : PoolSystem ι) (i : ι) (p : Pool ι) : PoolSystem ι :=
  { s with pool := p, history := s.history.grant i }

/-- The next step of call `i`, whose phase is given. -/
def next (s : PoolSystem ι) (i : ι) : PoolPhase ι → Option (PoolSystem ι)
  | .probing =>
      match s.pool.probeAndAcquire (s.call i).bytes with
      | (.acquired, p) => some ((s.admitted i p).setPhase i .acquired)
      | (.oversize, _) => some (s.setPhase i .refused)
      | (.full, _) => some (s.setPhase i .registering)
  | .registering =>
      some ({ s with pool := s.pool.register i, history := s.history.register i }.setPhase i
        .polling)
  | .polling =>
      match s.pool.pollHead i (s.call i).bytes with
      | (.acquired, p) => some ((s.admitted i p).setPhase i (.leaving true))
      | _ => some (s.setPhase i .parked)
  | .parked =>
      if (s.call i).permit then some ((s.setPermit i false).setPhase i .polling) else none
  | .leaving ok =>
      some ({ s with pool := (s.pool.deregister i).2 }.setPhase i
        (.handing ok (s.pool.deregister i).1))
  | .handing ok head =>
      some ((s.setPhase i (if ok then .acquired else .cancelled)).notifyOne head)
  | .releasing =>
      if (s.call i).bytes = 0 then some (s.setPhase i .released)
      else some ({ s with pool := (s.pool.release (s.call i).bytes).2 }.setPhase i
        (.waking (s.pool.release (s.call i).bytes).1))
  | .waking head => some ((s.setPhase i .released).notifyOne head)
  | .unused => none
  | .acquired => none
  | .refused => none
  | .cancelled => none
  | .released => none

/-- A new call. -/
def begin (s : PoolSystem ι) (i : ι) (bytes : ℕ) (phase : PoolPhase ι) : PoolSystem ι :=
  { s with call := Function.update s.call i ⟨bytes, phase, false⟩ }

/-- One event. -/
def step (s : PoolSystem ι) : PoolCallEvent ι → Option (PoolSystem ι)
  | .acquire i bytes =>
      match (s.call i).phase with
      | .unused => some ({ s with history := s.history.start i }.begin i bytes .probing)
      | _ => none
  | .release i bytes =>
      match (s.call i).phase with
      | .unused => some (s.begin i bytes .releasing)
      | _ => none
  | .next i => s.next i (s.call i).phase
  | .cancel i =>
      match (s.call i).phase with
      | .parked => some ({ s with history := s.history.drop i }.setPhase i (.leaving false))
      | _ => none

end PoolSystem

/-! ### The queue and the history -/

/-- The queue, the phases of the calls and the history fit together. -/
structure QueueInv {ι : Type*} (waiters : List ι) (phase : ι → PoolPhase ι)
    (h : FifoHistory ι) : Prop where
  nodup : waiters.Nodup
  queued : ∀ i, i ∈ waiters ↔ (phase i).isQueued = true
  waiting : h.waiting = waiters.filter fun i => (phase i).isOpen
  history : h.Inv
  early : ∀ i, (phase i).isEarly = true →
    h.registered i = none ∧ h.admitted i = none ∧ h.dropped i = none
  fresh : ∀ i, phase i = .unused → h.started i = none
  begun : ∀ i, (phase i).isEarly = true → phase i ≠ .unused → h.started i ≠ none

namespace QueueInv

variable {ι : Type*} {waiters : List ι} {phase : ι → PoolPhase ι} {h : FifoHistory ι} {i : ι}

theorem new : QueueInv (ι := ι) [] (fun _ => .unused) .new where
  nodup := List.nodup_nil
  queued := fun _ => by simp [PoolPhase.isQueued]
  waiting := rfl
  history := .new
  early := fun _ _ => ⟨rfl, rfl, rfl⟩
  fresh := fun _ _ => rfl
  begun := fun _ _ hne => absurd rfl hne

theorem mem_waiting (hq : QueueInv waiters phase h) :
    i ∈ h.waiting ↔ i ∈ waiters ∧ (phase i).isOpen = true := by
  rw [hq.waiting, List.mem_filter]

theorem isQueued_of_isOpen {ph : PoolPhase ι} (ho : ph.isOpen = true) : ph.isQueued = true := by
  cases ph <;> first | rfl | exact absurd ho Bool.false_ne_true

/-- An open call waits in the history too. -/
theorem mem_of_isOpen (hq : QueueInv waiters phase h) (ho : (phase i).isOpen = true) :
    i ∈ h.waiting :=
  hq.mem_waiting.mpr ⟨(hq.queued i).mpr (isQueued_of_isOpen ho), ho⟩

variable [DecidableEq ι]

theorem update_imp {P : PoolPhase ι → ι → Prop} {ph : PoolPhase ι}
    (hold : ∀ j, j ≠ i → P (phase j) j) (hnew : P ph i) (j : ι) :
    P (Function.update phase i ph j) j := by
  rcases eq_or_ne j i with rfl | hne
  · rwa [Function.update_self]
  · rw [Function.update_of_ne hne]
    exact hold j hne

theorem filter_isOpen_update {ph : PoolPhase ι} (hopen : ph.isOpen = (phase i).isOpen) :
    (waiters.filter fun j => (Function.update phase i ph j).isOpen)
      = waiters.filter fun j => (phase j).isOpen := by
  refine List.filter_congr fun j _ => ?_
  exact update_imp (P := fun q j => q.isOpen = (phase j).isOpen) (fun _ _ => rfl) hopen j

/-- An open call that closes is taken out of the waiting ones. -/
theorem filter_isOpen_erase (hnd : waiters.Nodup) {ph : PoolPhase ι} (hclosed : ph.isOpen = false) :
    (waiters.filter fun j => (Function.update phase i ph j).isOpen)
      = (waiters.filter fun j => (phase j).isOpen).erase i := by
  rw [(hnd.filter _).erase_eq_filter, List.filter_filter]
  refine List.filter_congr fun j _ => ?_
  rcases eq_or_ne j i with rfl | hne
  · simp [hclosed]
  · simp [hne]

/-- A step that the queue and the history do not notice. -/
theorem quiet (hq : QueueInv waiters phase h) {ph : PoolPhase ι}
    (hqueued : ph.isQueued = (phase i).isQueued) (hopen : ph.isOpen = (phase i).isOpen)
    (hearly : ph.isEarly = true → (phase i).isEarly = true ∧ phase i ≠ .unused)
    (hne : ph ≠ .unused) : QueueInv waiters (Function.update phase i ph) h where
  nodup := hq.nodup
  queued := update_imp (P := fun q j => j ∈ waiters ↔ q.isQueued = true) (fun j _ => hq.queued j)
    (hqueued ▸ hq.queued i)
  waiting := hq.waiting.trans (filter_isOpen_update hopen).symm
  history := hq.history
  early := update_imp (P := fun q j => q.isEarly = true →
      h.registered j = none ∧ h.admitted j = none ∧ h.dropped j = none)
    (fun j _ => hq.early j) fun he => hq.early i (hearly he).1
  fresh := update_imp (P := fun q j => q = .unused → h.started j = none)
    (fun j _ => hq.fresh j) fun he => absurd he hne
  begun := update_imp (P := fun q j => q.isEarly = true → q ≠ .unused → h.started j ≠ none)
    (fun j _ => hq.begun j) fun he _ => hq.begun i (hearly he).1 (hearly he).2

theorem start (hq : QueueInv waiters phase h) (hi : phase i = .unused) :
    QueueInv waiters (Function.update phase i .probing) (h.start i) where
  nodup := hq.nodup
  queued := update_imp (P := fun q j => j ∈ waiters ↔ q.isQueued = true) (fun j _ => hq.queued j)
    (by rw [hq.queued, hi]; rfl)
  waiting := hq.waiting.trans (filter_isOpen_update (by rw [hi]; rfl)).symm
  history := hq.history.start (hq.fresh i hi)
  early := update_imp (P := fun q j => q.isEarly = true →
      h.registered j = none ∧ h.admitted j = none ∧ h.dropped j = none)
    (fun j _ => hq.early j) fun _ => hq.early i (by rw [hi]; rfl)
  fresh := update_imp (P := fun q j => q = .unused → (h.start i).started j = none)
    (fun j hne hj => (Function.update_of_ne hne ..).trans (hq.fresh j hj)) nofun
  begun := update_imp
    (P := fun q j => q.isEarly = true → q ≠ .unused → (h.start i).started j ≠ none)
    (fun j _ he hu => FifoHistory.update_ne_none (hq.begun j he hu)) fun _ _ => by
      simp [FifoHistory.start]

/-- **A call registers at the end of the queue.** -/
theorem register (hq : QueueInv waiters phase h) (hi : phase i = .registering) :
    QueueInv (waiters ++ [i]) (Function.update phase i .polling) (h.register i) := by
  have hout : i ∉ waiters := by
    rw [hq.queued, hi]
    exact Bool.false_ne_true
  obtain ⟨hreg, hadm, hdrop⟩ := hq.early i (by rw [hi]; rfl)
  exact
    { nodup := by
        refine List.nodup_append.mpr ⟨hq.nodup, List.nodup_singleton _, fun a ha b hb => ?_⟩
        rintro rfl
        exact hout (List.mem_singleton.mp hb ▸ ha)
      queued := update_imp (P := fun q j => j ∈ waiters ++ [i] ↔ q.isQueued = true)
        (fun j hne => by rw [List.mem_append, List.mem_singleton, hq.queued]; simp [hne])
        (by simp [PoolPhase.isQueued])
      waiting := by
        have hold : (waiters.filter fun j => (Function.update phase i .polling j).isOpen)
            = waiters.filter fun j => (phase j).isOpen :=
          List.filter_congr fun j hj => by
            rw [Function.update_of_ne (by rintro rfl; exact hout hj)]
        rw [List.filter_append, hold, ← hq.waiting]
        simp [FifoHistory.register, PoolPhase.isOpen]
      history := hq.history.register (hq.begun i (by rw [hi]; rfl) (by simp [hi])) hreg hadm hdrop
      early := update_imp (P := fun q j => q.isEarly = true →
          (h.register i).registered j = none ∧ h.admitted j = none ∧ h.dropped j = none)
        (fun j hne he => ⟨(Function.update_of_ne hne ..).trans (hq.early j he).1, (hq.early j he).2⟩)
        nofun
      fresh := update_imp (P := fun q j => q = .unused → h.started j = none)
        (fun j _ => hq.fresh j) nofun
      begun := update_imp (P := fun q j => q.isEarly = true → q ≠ .unused → h.started j ≠ none)
        (fun j _ => hq.begun j) nofun }

/-- A call is admitted, by the probe or as the head of the queue. -/
theorem grant (hq : QueueInv waiters phase h) {ph : PoolPhase ι}
    (hqueued : ph.isQueued = (phase i).isQueued) (hclosed : ph.isOpen = false)
    (hearly : ph.isEarly = false)
    (hfair : (waiters = [] ∧ phase i = .probing) ∨
      (waiters.head? = some i ∧ (phase i).isOpen = true)) :
    QueueInv waiters (Function.update phase i ph) (h.grant i) where
  nodup := hq.nodup
  queued := update_imp (P := fun q j => j ∈ waiters ↔ q.isQueued = true) (fun j _ => hq.queued j)
    (hqueued ▸ hq.queued i)
  waiting := by
    rw [filter_isOpen_erase hq.nodup hclosed, ← hq.waiting]
    rfl
  history := by
    rcases hfair with ⟨hnil, hprobe⟩ | ⟨hhead, hopen⟩
    · obtain ⟨hreg, hadm, -⟩ := hq.early i (by rw [hprobe]; rfl)
      refine hq.history.grant (hq.begun i (by rw [hprobe]; rfl) (by simp [hprobe])) hadm
        (.inl ⟨?_, hreg⟩)
      rw [hq.waiting, hnil]
      rfl
    · obtain ⟨hreg, hadm, -⟩ := (hq.history.mem_waiting i).mp (hq.mem_of_isOpen hopen)
      obtain ⟨t, ht⟩ := Option.ne_none_iff_exists'.mp hreg
      obtain ⟨b, -, hb⟩ := hq.history.started_first i t ht
      refine hq.history.grant (by rw [hb]; simp) hadm (.inr ?_)
      obtain ⟨rest, hrest⟩ := List.head?_eq_some_iff.mp hhead
      rw [hq.waiting, hrest, List.filter_cons, if_pos hopen]
      rfl
  early := update_imp (P := fun q j => q.isEarly = true →
      h.registered j = none ∧ (h.grant i).admitted j = none ∧ h.dropped j = none)
    (fun j hne he => ⟨(hq.early j he).1, (Function.update_of_ne hne ..).trans (hq.early j he).2.1,
      (hq.early j he).2.2⟩)
    fun he => absurd he (by rw [hearly]; exact Bool.false_ne_true)
  fresh := update_imp (P := fun q j => q = .unused → h.started j = none)
    (fun j _ => hq.fresh j) fun he => by rw [he] at hearly; cases hearly
  begun := update_imp (P := fun q j => q.isEarly = true → q ≠ .unused → h.started j ≠ none)
    (fun j _ => hq.begun j) fun he => absurd he (by rw [hearly]; exact Bool.false_ne_true)

/-- The future of an open call is dropped. -/
theorem drop (hq : QueueInv waiters phase h) (hopen : (phase i).isOpen = true) :
    QueueInv waiters (Function.update phase i (.leaving false)) (h.drop i) where
  nodup := hq.nodup
  queued := update_imp (P := fun q j => j ∈ waiters ↔ q.isQueued = true) (fun j _ => hq.queued j)
    (by rw [hq.queued, isQueued_of_isOpen hopen]; rfl)
  waiting := by
    rw [filter_isOpen_erase hq.nodup rfl, ← hq.waiting]
    rfl
  history := hq.history.drop ((hq.history.mem_waiting i).mp (hq.mem_of_isOpen hopen)).2.2
  early := update_imp (P := fun q j => q.isEarly = true →
      h.registered j = none ∧ h.admitted j = none ∧ (h.drop i).dropped j = none)
    (fun j hne he => ⟨(hq.early j he).1, (hq.early j he).2.1,
      (Function.update_of_ne hne ..).trans (hq.early j he).2.2⟩) nofun
  fresh := update_imp (P := fun q j => q = .unused → h.started j = none)
    (fun j _ => hq.fresh j) nofun
  begun := update_imp (P := fun q j => q.isEarly = true → q ≠ .unused → h.started j ≠ none)
    (fun j _ => hq.begun j) nofun

/-- A ticket that has closed leaves the queue. -/
theorem deregister (hq : QueueInv waiters phase h) {ok : Bool} {head : Option ι}
    (hi : phase i = .leaving ok) :
    QueueInv (waiters.erase i) (Function.update phase i (.handing ok head)) h where
  nodup := hq.nodup.erase i
  queued := update_imp (P := fun q j => j ∈ waiters.erase i ↔ q.isQueued = true)
    (fun j hne => by rw [hq.nodup.mem_erase_iff, hq.queued]; simp [hne])
    (by rw [hq.nodup.mem_erase_iff]; simp [PoolPhase.isQueued])
  waiting := by
    rw [filter_isOpen_update (by rw [hi]; rfl), hq.nodup.erase_eq_filter, List.filter_filter,
      hq.waiting]
    refine List.filter_congr fun j _ => ?_
    rcases eq_or_ne j i with rfl | hne
    · rw [hi]
      rfl
    · simp [hne]
  history := hq.history
  early := update_imp (P := fun q j => q.isEarly = true →
      h.registered j = none ∧ h.admitted j = none ∧ h.dropped j = none)
    (fun j _ => hq.early j) nofun
  fresh := update_imp (P := fun q j => q = .unused → h.started j = none)
    (fun j _ => hq.fresh j) nofun
  begun := update_imp (P := fun q j => q.isEarly = true → q ≠ .unused → h.started j ≠ none)
    (fun j _ => hq.begun j) nofun

end QueueInv

namespace PoolSystem

variable {ι : Type*}

/-- The phase of a call. -/
def phases (s : PoolSystem ι) (i : ι) : PoolPhase ι := (s.call i).phase

/-- Some call is about to notify ticket `i`. -/
def AboutToNotify (s : PoolSystem ι) (i : ι) : Prop := ∃ j, (s.phases j).notifies = some i

/-- Whoever heads the queue and would fit is not asleep without a
notification, stored or on its way. -/
def NoLostWakeup (s : PoolSystem ι) : Prop :=
  ∀ i, s.pool.waiters.head? = some i → s.phases i = .parked → (s.call i).permit = false →
    ¬ s.AboutToNotify i → ¬ s.pool.Fits (s.call i).bytes

/-- What every interleaving keeps. -/
structure Inv (s : PoolSystem ι) : Prop where
  queue : QueueInv s.pool.waiters s.phases s.history
  wakeup : s.NoLostWakeup

theorem Inv.new (cap : ℕ) : (PoolSystem.new cap : PoolSystem ι).Inv where
  queue := QueueInv.new
  wakeup := fun _ hhead => absurd hhead (by simp [PoolSystem.new, Pool.new])

variable {s : PoolSystem ι} {i : ι}

/-- A step of call `i` that leaves the pool and everybody else alone and
takes no notification back. -/
theorem NoLostWakeup.of_call (h : s.NoLostWakeup) {s' : PoolSystem ι} (hpool : s'.pool = s.pool)
    (hcall : ∀ j, j ≠ i → s'.call j = s.call j) (hnone : (s.phases i).notifies = none)
    (hself : s.pool.waiters.head? = some i → s'.phases i = .parked → (s'.call i).permit = false →
      ¬ s.pool.Fits (s'.call i).bytes) : s'.NoLostWakeup := by
  intro k hhead hparked hpermit hnotify
  rw [hpool] at hhead ⊢
  rcases eq_or_ne k i with rfl | hne
  · exact hself hhead hparked hpermit
  · rw [phases, hcall k hne] at hparked
    rw [hcall k hne] at hpermit ⊢
    refine h k hhead hparked hpermit ?_
    rintro ⟨j, hj⟩
    refine hnotify ⟨j, ?_⟩
    have hji : j ≠ i := by
      rintro rfl
      rw [hnone] at hj
      cases hj
    rw [phases, hcall j hji]
    exact hj

/-- Whoever is the head now is about to be notified by call `i`. -/
theorem NoLostWakeup.of_notifies {s' : PoolSystem ι}
    (h : (s'.phases i).notifies = s'.pool.waiters.head?) : s'.NoLostWakeup :=
  fun _ hk _ _ hnotify => absurd ⟨i, h.trans hk⟩ hnotify

variable [DecidableEq ι]

@[simp] theorem phases_setPhase (ph : PoolPhase ι) :
    (s.setPhase i ph).phases = Function.update s.phases i ph := by
  funext j
  rcases eq_or_ne j i with rfl | hne
  · simp [phases, setPhase]
  · simp [phases, setPhase, Function.update_of_ne hne]

@[simp] theorem phases_setPermit (b : Bool) : (s.setPermit i b).phases = s.phases := by
  funext j
  rcases eq_or_ne j i with rfl | hne
  · simp [phases, setPermit]
  · simp [phases, setPermit, Function.update_of_ne hne]

@[simp] theorem phases_notifyOne (head : Option ι) : (s.notifyOne head).phases = s.phases := by
  rcases head with - | w
  · rfl
  · exact phases_setPermit true

@[simp] theorem pool_notifyOne (head : Option ι) : (s.notifyOne head).pool = s.pool := by
  rcases head with - | w <;> rfl

@[simp] theorem history_notifyOne (head : Option ι) : (s.notifyOne head).history = s.history := by
  rcases head with - | w <;> rfl

@[simp] theorem phases_begin (bytes : ℕ) (ph : PoolPhase ι) :
    (s.begin i bytes ph).phases = Function.update s.phases i ph := by
  funext j
  rcases eq_or_ne j i with rfl | hne
  · simp [phases, PoolSystem.begin]
  · simp [phases, PoolSystem.begin, Function.update_of_ne hne]

/-! ### No wake-up is lost -/

/-- A call delivers its notification. -/
theorem NoLostWakeup.deliver (h : s.NoLostWakeup) {ph : PoolPhase ι} (hph : ph ≠ .parked)
    {head : Option ι} (hhead : (s.phases i).notifies = head) :
    ((s.setPhase i ph).notifyOne head).NoLostWakeup := by
  intro k hk hparked hpermit hnotify
  rw [pool_notifyOne] at hk ⊢
  rw [phases_notifyOne, phases_setPhase] at hparked
  have hki : k ≠ i := by
    rintro rfl
    rw [Function.update_self] at hparked
    exact hph hparked
  have hnot : head ≠ some k := by
    rintro rfl
    simp [notifyOne, setPermit] at hpermit
  have hcall : ((s.setPhase i ph).notifyOne head).call k = s.call k := by
    rcases head with - | w
    · exact Function.update_of_ne hki ..
    · have hkw : k ≠ w := by
        rintro rfl
        exact hnot rfl
      exact (Function.update_of_ne hkw ..).trans (Function.update_of_ne hki ..)
  rw [Function.update_of_ne hki] at hparked
  rw [hcall] at hpermit ⊢
  refine h k hk hparked hpermit ?_
  rintro ⟨j, hj⟩
  refine hnotify ⟨j, ?_⟩
  rw [phases_notifyOne, phases_setPhase, Function.update_of_ne]
  · exact hj
  · rintro rfl
    exact hnot (hhead.symm.trans hj)

/-- A new ticket at the tail changes the head only of an empty queue. -/
theorem NoLostWakeup.register (h : s.NoLostWakeup) (hnone : (s.phases i).notifies = none) :
    ({ s with pool := s.pool.register i, history := s.history.register i }.setPhase i
      .polling : PoolSystem ι).NoLostWakeup := by
  intro k hk hparked hpermit hnotify
  rw [phases_setPhase] at hparked
  have hki : k ≠ i := by
    rintro rfl
    rw [Function.update_self] at hparked
    cases hparked
  have hhead : s.pool.waiters.head? = some k := by
    have hk' : (s.pool.waiters ++ [i]).head? = some k := hk
    rcases hw : s.pool.waiters with - | ⟨w, ws⟩
    · rw [hw] at hk'
      exact absurd (Option.some.inj hk').symm hki
    · rw [hw] at hk'
      exact hk'
  -- for everybody else nothing has changed
  have hset : (s.setPhase i .polling).NoLostWakeup := by
    refine h.of_call (i := i) rfl (fun j hj => Function.update_of_ne hj ..) hnone fun _ hp => ?_
    rw [phases_setPhase, Function.update_self] at hp
    cases hp
  exact hset k hhead (by rw [phases_setPhase]; exact hparked) hpermit hnotify

/-- A step that changes the phase of one call only. -/
theorem Inv.setPhase (h : s.Inv) {ph : PoolPhase ι}
    (hqueued : ph.isQueued = (s.phases i).isQueued) (hopen : ph.isOpen = (s.phases i).isOpen)
    (hearly : ph.isEarly = true → (s.phases i).isEarly = true ∧ s.phases i ≠ .unused)
    (hne : ph ≠ .unused) (hnone : (s.phases i).notifies = none)
    (hpark : s.pool.waiters.head? = some i → ph = .parked → ¬ s.pool.Fits (s.call i).bytes) :
    (s.setPhase i ph).Inv where
  queue := by
    rw [phases_setPhase]
    exact h.queue.quiet hqueued hopen hearly hne
  wakeup := by
    refine h.wakeup.of_call (i := i) rfl (fun j hj => Function.update_of_ne hj ..) hnone ?_
    intro hhead hparked _
    rw [phases_setPhase, Function.update_self] at hparked
    simpa [PoolSystem.setPhase] using hpark hhead hparked

/-- The pool changes but for its queue, and the head is to be notified. -/
theorem Inv.wake (h : s.Inv) (hph : s.phases i = .releasing) {p : Pool ι}
    (hp : p.waiters = s.pool.waiters) :
    ({ s with pool := p }.setPhase i (.waking s.pool.waiters.head?) : PoolSystem ι).Inv where
  queue := by
    rw [phases_setPhase]
    show QueueInv p.waiters (Function.update s.phases i _) s.history
    rw [hp]
    exact h.queue.quiet (by rw [hph]; rfl) (by rw [hph]; rfl) nofun nofun
  wakeup := by
    refine NoLostWakeup.of_notifies (i := i) ?_
    rw [phases_setPhase, Function.update_self]
    exact congrArg List.head? hp.symm

/-- A call goes on to its next phase. -/
theorem Inv.next (h : s.Inv) {s' : PoolSystem ι} (hs : s.next i (s.phases i) = some s') :
    s'.Inv := by
  rcases hph : s.phases i with - | - | - | - | - | ok | ⟨ok, head⟩ | - | - | - | - | head | - <;>
    rw [hph] at hs
  · cases hs
  · -- the probe
    simp only [PoolSystem.next] at hs
    split at hs
    · next p hp =>
      obtain ⟨hnil, -, rfl⟩ := Pool.probeAndAcquire_acquired hp
      rw [← Option.some.inj hs]
      refine ⟨?_, fun k hk => ?_⟩
      · rw [phases_setPhase]
        exact h.queue.grant (by rw [hph]; rfl) rfl rfl (.inl ⟨hnil, hph⟩)
      · have hk' : s.pool.waiters.head? = some k := hk
        rw [hnil] at hk'
        cases hk'
    · rw [← Option.some.inj hs]
      exact h.setPhase (by rw [hph]; rfl) (by rw [hph]; rfl) nofun nofun (by rw [hph]; rfl) nofun
    · rw [← Option.some.inj hs]
      refine h.setPhase (by rw [hph]; rfl) (by rw [hph]; rfl) (fun _ => ?_) nofun
        (by rw [hph]; rfl) nofun
      rw [hph]
      exact ⟨rfl, nofun⟩
  · -- the ticket enters the queue
    rw [← Option.some.inj hs]
    refine ⟨?_, ?_⟩
    · rw [phases_setPhase]
      exact h.queue.register hph
    · refine NoLostWakeup.register h.wakeup ?_
      rw [hph]
      rfl
  · -- the look at the head of the queue
    simp only [PoolSystem.next] at hs
    split at hs
    · next p hp =>
      obtain ⟨hhead, -, rfl⟩ := Pool.pollHead_acquired hp
      rw [← Option.some.inj hs]
      refine ⟨?_, fun k hk hparked => ?_⟩
      · rw [phases_setPhase]
        exact h.queue.grant (by rw [hph]; rfl) rfl rfl (.inr ⟨hhead, by rw [hph]; rfl⟩)
      · -- the head is the one just admitted
        obtain rfl : i = k := Option.some.inj (hhead.symm.trans hk)
        rw [phases_setPhase, Function.update_self] at hparked
        cases hparked
    · next hno =>
      rw [← Option.some.inj hs]
      refine h.setPhase (by rw [hph]; rfl) (by rw [hph]; rfl) nofun nofun (by rw [hph]; rfl)
        fun hhead _ => Pool.not_fits_of_pollHead ?_ hhead
      intro hacq
      exact hno _ (Prod.ext hacq rfl)
  · -- the notification is consumed
    simp only [PoolSystem.next] at hs
    split at hs
    · rw [← Option.some.inj hs]
      refine ⟨?_, ?_⟩
      · rw [phases_setPhase, phases_setPermit]
        exact h.queue.quiet (by rw [hph]; rfl) (by rw [hph]; rfl) nofun nofun
      · refine h.wakeup.of_call (i := i) rfl (fun j hj => ?_) (by rw [hph]; rfl) fun _ hparked => ?_
        · exact (Function.update_of_ne hj ..).trans (Function.update_of_ne hj ..)
        · rw [phases_setPhase, Function.update_self] at hparked
          cases hparked
    · cases hs
  · -- the ticket leaves the queue
    rw [← Option.some.inj hs]
    refine ⟨?_, ?_⟩
    · rw [phases_setPhase]
      exact h.queue.deregister hph
    · refine NoLostWakeup.of_notifies (i := i) ?_
      rw [phases_setPhase, Function.update_self]
      rfl
  · -- the new head is notified
    rw [← Option.some.inj hs]
    refine ⟨?_, ?_⟩
    · rw [phases_notifyOne, pool_notifyOne, history_notifyOne, phases_setPhase]
      refine h.queue.quiet ?_ ?_ ?_ ?_
      · rw [hph]
        rcases ok <;> rfl
      · rw [hph]
        rcases ok <;> rfl
      · rcases ok <;> nofun
      · rcases ok <;> nofun
    · refine h.wakeup.deliver ?_ ?_
      · rcases ok <;> nofun
      · rw [hph]
        rfl
  · cases hs
  · cases hs
  · cases hs
  · -- bytes are returned
    simp only [PoolSystem.next] at hs
    split at hs
    · rw [← Option.some.inj hs]
      exact h.setPhase (by rw [hph]; rfl) (by rw [hph]; rfl) nofun nofun (by rw [hph]; rfl) nofun
    · rw [← Option.some.inj hs, Pool.release_head]
      exact h.wake hph (Pool.release_waiters ..)
  · -- the head is notified
    rw [← Option.some.inj hs]
    refine ⟨?_, ?_⟩
    · rw [phases_notifyOne, pool_notifyOne, history_notifyOne, phases_setPhase]
      exact h.queue.quiet (by rw [hph]; rfl) (by rw [hph]; rfl) nofun nofun
    · have hne : (PoolPhase.released : PoolPhase ι) ≠ .parked := nofun
      refine h.wakeup.deliver hne ?_
      rw [hph]
      rfl
  · cases hs

/-- **Every step keeps the invariant.** -/
theorem Inv.step (h : s.Inv) {e : PoolCallEvent ι} {s' : PoolSystem ι} (hs : s.step e = some s') :
    s'.Inv := by
  rcases e with ⟨i, bytes⟩ | ⟨i, bytes⟩ | i | i
  · simp only [PoolSystem.step] at hs
    split at hs
    · next hph =>
      replace hph : s.phases i = .unused := hph
      rw [← Option.some.inj hs]
      refine ⟨?_, ?_⟩
      · rw [phases_begin]
        exact h.queue.start hph
      · refine h.wakeup.of_call (i := i) rfl (fun j hj => Function.update_of_ne hj ..)
          (by rw [hph]; rfl) fun _ hparked => ?_
        rw [phases_begin, Function.update_self] at hparked
        cases hparked
    · cases hs
  · simp only [PoolSystem.step] at hs
    split at hs
    · next hph =>
      replace hph : s.phases i = .unused := hph
      rw [← Option.some.inj hs]
      refine ⟨?_, ?_⟩
      · rw [phases_begin]
        exact h.queue.quiet (by rw [hph]; rfl) (by rw [hph]; rfl) nofun nofun
      · refine h.wakeup.of_call (i := i) rfl (fun j hj => Function.update_of_ne hj ..)
          (by rw [hph]; rfl) fun _ hparked => ?_
        rw [phases_begin, Function.update_self] at hparked
        cases hparked
    · cases hs
  · exact h.next hs
  · simp only [PoolSystem.step] at hs
    split at hs
    · next hph =>
      replace hph : s.phases i = .parked := hph
      rw [← Option.some.inj hs]
      refine ⟨?_, ?_⟩
      · rw [phases_setPhase]
        exact h.queue.drop (by show (s.phases i).isOpen = true; rw [hph]; rfl)
      · refine h.wakeup.of_call (i := i) rfl (fun j hj => Function.update_of_ne hj ..)
          (by rw [hph]; rfl) fun _ hparked => ?_
        rw [phases_setPhase, Function.update_self] at hparked
        cases hparked
    · cases hs

/-! ### Every interleaving -/

/-- The invariant holds in every run. -/
theorem inv_of_reach {cap : ℕ} (h : Reach step (fun _ _ => True) (· = new cap) s) : s.Inv :=
  h.invariant (fun _ hs => hs ▸ Inv.new cap) fun _ _ _ hi _ hs => hi.step hs

/-- **A fair pool.**  For every interleaving of `acquire_fair` calls, releases and
dropped futures on one pool: registered waiters are admitted in the order of
their registration, nobody who starts after a waiter registered is admitted
before that waiter is admitted or dropped, the first open waiter of the queue is
the earliest one of the history, and a head waiter that would fit is not asleep
without a notification, stored or on its way. -/
theorem pool_fair {cap : ℕ} (h : Reach step (fun _ _ => True) (· = new cap) s) :
    s.history.InOrder ∧ s.history.NoOvertaking ∧
      (∀ i, s.pool.waiters.find? (fun j => (s.phases j).isOpen) = some i ↔
        s.history.Earliest i) ∧ s.NoLostWakeup := by
  have hinv := inv_of_reach h
  refine ⟨hinv.queue.history.inOrder, hinv.queue.history.noOvertaking, fun i => ?_, hinv.wakeup⟩
  rw [← hinv.queue.history.head?_eq_iff, hinv.queue.waiting, List.head?_filter]

/-- Two waiters behind a call that holds the whole pool; it is released, and the
first of them admitted. -/
def waiterRun : List (PoolCallEvent ℕ) :=
  [.acquire 0 10, .next 0, .acquire 1 5, .next 1, .next 1, .next 1, .acquire 3 5, .next 3, .next 3,
    .next 3, .release 2 10, .next 2, .next 2, .next 1, .next 1, .next 1, .next 1]

/-- The first waiter is served, and the second one is the earliest now. -/
theorem pool_fair_waiterRun :
    ∃ s, runEvents step (new 10) waiterRun = some s ∧ s.history.admitted 1 = some 6 ∧
      s.history.InOrder ∧ s.history.NoOvertaking ∧ s.history.Earliest 3 ∧ s.NoLostWakeup := by
  have hrun : ∃ s, runEvents step (new 10) waiterRun = some s ∧
      s.history.admitted 1 = some 6 ∧
      s.pool.waiters.find? (fun j => (s.phases j).isOpen) = some 3 :=
    ⟨_, rfl, rfl, rfl⟩
  obtain ⟨s, hs, hadmitted, hopen⟩ := hrun
  obtain ⟨hinOrder, hnoOvertaking, hearliest, hwakeup⟩ :=
    pool_fair (.of_run (.start rfl) runOk_true hs)
  exact ⟨s, hs, hadmitted, hinOrder, hnoOvertaking, (hearliest 3).mp hopen, hwakeup⟩

end PoolSystem

end KDown
