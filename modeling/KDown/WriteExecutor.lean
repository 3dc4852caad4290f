/-
KDown/WriteExecutor.lean

The shared write executor (io/write_executor.rs, io/write_budget.rs): a fixed
pool of writer threads, a queue for each attached session, a byte budget, and
the calls `submit`, `detach` and `shutdown`.

Every lock acquisition, atomic access, wait and notification is a step of its
own.  A worker holds the mutex from its scan of the queues over its read of
the closed flag to its wait on the condition variable.  `shutdown` takes no
mutex for the flag and the broadcast.  A block under the mutex without other
atomic accesses is one step.

The waits of the byte budget and of a detaching session are modelled by what
they wait for: both register before they check.
-/
import KDown.Runs
import KDown.Tally
import Mathlib.Data.Nat.Notation
import Mathlib.Logic.Function.Basic

namespace KDown

/-! ### Writes -/

/-- A write as it is submitted. -/
structure WriteExecutor.WriteSubmission where
  job : ℕ
  leaseId : ℕ
  generation : ℕ
  offset : ℕ
  data : List UInt8
  deriving DecidableEq, Repr

/-- Terminal status of a submitted write. -/
inductive WriteExecutor.WriteOutcome
  | completed
  | failed (error : String)
  | discarded
  deriving DecidableEq, Repr

/-- What is sent back when a write is over. -/
structure WriteExecutor.WriteCompletion where
  leaseId : ℕ
  generation : ℕ
  offset : ℕ
  len : ℕ
  outcome : WriteExecutor.WriteOutcome
  deriving DecidableEq, Repr

/-- A queued write and the bytes it holds of the executor's budget. -/
structure QueuedWrite where
  /-- The submitting call. -/
  call : ℕ
  submission : WriteExecutor.WriteSubmission
  bytes : ℕ
  deriving DecidableEq, Repr

/-- The answer to a queued write. -/
def QueuedWrite.completion (item : QueuedWrite) (outcome : WriteExecutor.WriteOutcome) :
    WriteExecutor.WriteCompletion :=
  ⟨item.submission.leaseId, item.submission.generation, item.submission.offset,
    item.submission.data.length, outcome⟩

/-- What `write_blocking` returned; a panic is an error. -/
def executeWrite : Option String → WriteExecutor.WriteOutcome
  | none => .completed
  | some error => .failed error

/-! ### The parties -/

/-- An attached job's queue. -/
structure SessionEntry where
  id : ℕ
  job : ℕ
  closed : Bool
  detached : Bool
  queue : List QueuedWrite
  executing : ℕ
  deriving DecidableEq, Repr

/-- Where a writer thread stands, between its accesses to shared state. -/
inductive WriterPhase
  | absent
  /-- Wants the mutex, in `take_next`. -/
  | entering
  /-- Has the mutex and looks for a queued write. -/
  | scanning
  /-- Found none; about to read the flag. -/
  | checking
  /-- Has read the flag and is about to wait. -/
  | parking (sawClosed : Bool)
  | parked
  /-- Notified; wants the mutex back. -/
  | waking
  | executing (session : ℕ) (item : QueuedWrite)
  /-- About to send the completion. -/
  | sending (session : ℕ) (item : QueuedWrite) (outcome : WriteExecutor.WriteOutcome)
  /-- About to release the bytes. -/
  | releasing (session : ℕ) (item : QueuedWrite)
  /-- Wants the mutex, in `settle`. -/
  | settling (session : ℕ)
  /-- Has counted down and is about to read the flag. -/
  | announcing
  /-- Has read the flag and is about to notify. -/
  | broadcasting
  /-- Out of the loop, about to send its exit signal. -/
  | exiting
  | gone
  deriving DecidableEq, Repr

/-- Where a call of `submit` stands. -/
inductive SubmitPhase
  | unused
  | entering
  | acquiring
  | enqueueing
  /-- Turned away, about to release the bytes. -/
  | refunding
  | notifying
  /-- Returned `Ok`. -/
  | accepted
  /-- Returned `Closed` after it had bytes of the budget. -/
  | refused
  /-- Returned `Closed`, panicked or was dropped without any. -/
  | ended
  deriving DecidableEq, Repr

/-- A call of `submit`. -/
structure SubmitCall where
  session : ℕ
  /-- The write it submits, with the bytes it will hold. -/
  item : QueuedWrite
  phase : SubmitPhase
  deriving DecidableEq, Repr

/-- What becomes of the writes still queued when a session detaches. -/
inductive SessionDisposition
  | drain
  | discard
  deriving DecidableEq, Repr

/-- Where a call of `detach` stands. -/
inductive DetachPhase
  | unused
  | closing
  | waiting
  | leaving
  | ended
  deriving DecidableEq, Repr

/-- A call of `detach`. -/
structure DetachCall where
  session : ℕ
  disposition : SessionDisposition
  phase : DetachPhase
  deriving DecidableEq, Repr

/-- Where a call of `shutdown` stands. -/
inductive ShutdownPhase
  | unused
  | storing
  | notifying
  | taking
  | joining (exits : List ℕ)
  | clearing
  | returned
  /-- Its future was dropped. -/
  | cancelled
  deriving DecidableEq, Repr

/-- The executor, the calls on it and the handles that refer to it. -/
structure WriteExecutor where
  /-- Number of writer threads. -/
  threads : ℕ
  maxQueuedBytes : ℕ
  closed : Bool
  /-- The thread that holds the state mutex. -/
  lock : Option ℕ
  sessions : List SessionEntry
  cursor : ℕ
  nextSessionId : ℕ
  /-- Bytes queued or executing. -/
  outstanding : ℕ
  worker : ℕ → WriterPhase
  /-- Exit signals that nobody awaits yet. -/
  workerExits : List ℕ
  submits : ℕ → SubmitCall
  /-- Calls so far. -/
  submitCount : ℕ
  detaches : ℕ → DetachCall
  detachCount : ℕ
  shutdowns : ℕ → ShutdownPhase
  shutdownCount : ℕ
  /-- Handles outside calls. -/
  executorHandles : ℕ
  sessionHandles : ℕ → ℕ
  /-- Handles that a call under way holds or borrows. -/
  lent : ℕ
  jobOf : ℕ → ℕ
  coreDropped : Bool
  /-- Completions delivered so far. -/
  delivered : List (QueuedWrite × WriteExecutor.WriteOutcome)
  /-- Byte charges released so far. -/
  released : List QueuedWrite

/-- A step of a thread, a call that begins, or a future that is dropped. -/
inductive ExecutorEvent
  /-- The next step of a writer thread. -/
  | work (w : ℕ)
  /-- Its write ends, with an error or without. -/
  | execute (w : ℕ) (result : Option String)
  /-- A wait ends without a notification. -/
  | spurious (w : ℕ)
  | session (job : ℕ)
  | cloneExecutor
  | dropExecutor
  | cloneSession (id : ℕ)
  | dropSession (id : ℕ)
  | submit (id : ℕ) (write : WriteExecutor.WriteSubmission)
  | submitNext (i : ℕ)
  /-- `notify_one`, and whom it wakes. -/
  | submitNotify (i : ℕ) (woken : Option ℕ)
  | submitCancel (i : ℕ)
  | detach (id : ℕ) (disposition : SessionDisposition)
  | detachNext (d : ℕ)
  | detachCancel (d : ℕ)
  | shutdown
  | shutdownNext (j : ℕ)
  | shutdownCancel (j : ℕ)
  /-- The last reference goes: `ExecutorCore::drop`. -/
  | dropCore
  deriving DecidableEq

namespace WriteExecutor

/-- An executor with nothing attached. -/
def new (writerThreads maxQueuedBytes : ℕ) : WriteExecutor where
  threads := max writerThreads 1
  maxQueuedBytes := maxQueuedBytes
  closed := false
  lock := none
  sessions := []
  cursor := 0
  nextSessionId := 0
  outstanding := 0
  worker := fun w => if w < max writerThreads 1 then .entering else .absent
  workerExits := List.range (max writerThreads 1)
  submits := fun _ => ⟨0, ⟨0, ⟨0, 0, 0, 0, []⟩, 0⟩, .unused⟩
  submitCount := 0
  detaches := fun _ => ⟨0, .drain, .unused⟩
  detachCount := 0
  shutdowns := fun _ => .unused
  shutdownCount := 0
  executorHandles := 1
  sessionHandles := fun _ => 0
  lent := 0
  jobOf := fun _ => 0
  coreDropped := false
  delivered := []
  released := []

/-- The writer thread moves on. -/
def setWorker (s : WriteExecutor) (w : ℕ) (ph : WriterPhase) : WriteExecutor :=
  { s with worker := Function.update s.worker w ph }

/-- The mutex is taken or released. -/
def setLock (s : WriteExecutor) (l : Option ℕ) : WriteExecutor := { s with lock := l }

/-- The entry of a session at its place in the table. -/
def setSession (s : WriteExecutor) (index : ℕ) (e : SessionEntry) : WriteExecutor :=
  { s with sessions := s.sessions.set index e }

/-- `notify_all`. -/
def notifyAll (s : WriteExecutor) : WriteExecutor :=
  { s with worker := fun w => if s.worker w = .parked then .waking else s.worker w }

/-- `OutstandingByteBudget::release`. -/
def release (s : WriteExecutor) (item : QueuedWrite) : WriteExecutor :=
  { s with outstanding := s.outstanding - item.bytes, released := s.released ++ [item] }

/-- The completion is sent to the session. -/
def deliver (s : WriteExecutor) (item : QueuedWrite) (outcome : WriteOutcome) : WriteExecutor :=
  { s with delivered := s.delivered ++ [(item, outcome)] }

/-- The registry lookup by identity. -/
def sessionIndex (s : WriteExecutor) (id : ℕ) : Option ℕ := s.sessions.findIdx? fun e => e.id = id

/-! ### Writer threads -/

/-- The first session with a queued write, from the cursor round. -/
def pick (s : WriteExecutor) : Option ℕ :=
  ((List.range s.sessions.length).map fun offset =>
    (s.cursor % s.sessions.length + offset) % s.sessions.length).find? fun index =>
      (s.sessions[index]?.map fun e => !e.queue.isEmpty).getD false

/-- `take_next` serves the session at `index`. -/
def take (s : WriteExecutor) (w index : ℕ) : Option WriteExecutor :=
  match s.sessions[index]? with
  | none => none
  | some e =>
      match e.queue with
      | [] => none
      | item :: rest =>
          some { ((s.setSession index
              { e with queue := rest, executing := e.executing + 1 }).setWorker w
                (.executing e.id item)).setLock none with
            cursor := (index + 1) % s.sessions.length }

/-- Nothing is queued and nothing executes. -/
def Settled (s : WriteExecutor) : Prop := ∀ e ∈ s.sessions, e.queue = [] ∧ e.executing = 0

instance (s : WriteExecutor) : Decidable s.Settled :=
  inferInstanceAs (Decidable (∀ e ∈ s.sessions, e.queue = [] ∧ e.executing = 0))

/-- `settle` counts down under the mutex. -/
def countDown (s : WriteExecutor) (id : ℕ) : WriteExecutor :=
  match s.sessionIndex id with
  | none => s
  | some index =>
      match s.sessions[index]? with
      | none => s
      | some e => s.setSession index { e with executing := e.executing - 1 }

/-- The next step of a writer thread. -/
def workerStep (s : WriteExecutor) (w : ℕ) : WriterPhase → Option WriteExecutor
  | .entering => if s.lock = none then some ((s.setWorker w .scanning).setLock (some w)) else none
  | .waking => if s.lock = none then some ((s.setWorker w .scanning).setLock (some w)) else none
  | .scanning =>
      match s.pick with
      | some index => s.take w index
      | none => some (s.setWorker w .checking)
  | .checking =>
      if s.closed = true ∧ s.Settled then some ((s.setWorker w .exiting).setLock none)
      else some (s.setWorker w (.parking s.closed))
  -- the wait gives the mutex back
  | .parking _ => some ((s.setWorker w .parked).setLock none)
  | .sending id item outcome => some ((s.deliver item outcome).setWorker w (.releasing id item))
  | .releasing id item => some ((s.release item).setWorker w (.settling id))
  | .settling id =>
      if s.lock = none then some (((s.countDown id).setWorker w .announcing).setLock (some w))
      else none
  | .announcing =>
      if s.closed then some (s.setWorker w .broadcasting)
      else some ((s.setWorker w .entering).setLock none)
  | .broadcasting => some ((s.notifyAll.setWorker w .entering).setLock none)
  | .exiting => some (s.setWorker w .gone)
  | .absent => none
  | .parked => none
  | .executing _ _ => none
  | .gone => none

/-! ### Calls -/

/-- The submission moves on. -/
def setSubmit (s : WriteExecutor) (i : ℕ) (ph : SubmitPhase) : WriteExecutor :=
  { s with submits := Function.update s.submits i { s.submits i with phase := ph } }

/-- What call `i` submits. -/
def item (s : WriteExecutor) (i : ℕ) : QueuedWrite := (s.submits i).item

/-- A call ends and gives its borrowed handle of session `id` back. -/
def giveBack (s : WriteExecutor) (id : ℕ) : WriteExecutor :=
  { s with
    lent := s.lent - 1
    sessionHandles := Function.update s.sessionHandles id (s.sessionHandles id + 1) }

/-- The submission is over, and gives back what it holds of the session. -/
def endSubmit (s : WriteExecutor) (i : ℕ) (ph : SubmitPhase) : WriteExecutor :=
  (s.setSubmit i ph).giveBack (s.submits i).session

/-- `submit` up to its notification. -/
def submitStep (s : WriteExecutor) (i : ℕ) : SubmitPhase → Option WriteExecutor
  | .entering =>
      if s.closed then some (s.endSubmit i .ended)
      -- a submission for another job panics
      else if (s.item i).submission.job = s.jobOf (s.submits i).session then
        some (s.setSubmit i .acquiring)
      else some (s.endSubmit i .ended)
  | .acquiring =>
      if (s.item i).bytes = 0 ∨ s.outstanding + (s.item i).bytes ≤ s.maxQueuedBytes then
        some { s.setSubmit i .enqueueing with outstanding := s.outstanding + (s.item i).bytes }
      else none
  | .enqueueing =>
      if s.lock = none then
        match s.sessionIndex (s.submits i).session with
        | none => some (s.setSubmit i .refunding)
        | some index =>
            match s.sessions[index]? with
            | none => none
            | some e =>
                if e.closed then some (s.setSubmit i .refunding)
                else some ((s.setSession index { e with queue := e.queue ++ [s.item i] }).setSubmit i
                  .notifying)
      else none
  | .refunding => some ((s.release (s.item i)).endSubmit i .refused)
  | _ => none

/-- `notify_one` wakes one of the parked threads, if there is one. -/
def submitNotify (s : WriteExecutor) (i : ℕ) : Option ℕ → Option WriteExecutor
  | none =>
      if (s.submits i).phase = .notifying ∧ ∀ w < s.threads, s.worker w ≠ .parked then
        some (s.endSubmit i .accepted)
      else none
  | some w =>
      if (s.submits i).phase = .notifying ∧ w < s.threads ∧ s.worker w = .parked then
        some ((s.setWorker w .waking).endSubmit i .accepted)
      else none

/-- The detachment moves on. -/
def setDetach (s : WriteExecutor) (d : ℕ) (ph : DetachPhase) : WriteExecutor :=
  { s with detaches := Function.update s.detaches d { s.detaches d with phase := ph } }

/-- The queued writes of a discarded session: for each one its bytes are
released and a completion is sent. -/
def discard (s : WriteExecutor) (items : List QueuedWrite) : WriteExecutor :=
  { s with
    outstanding := s.outstanding - listTally QueuedWrite.bytes items
    released := s.released ++ items
    delivered := s.delivered ++ items.map fun item => (item, .discarded) }

/-- The next step of a detachment. -/
def detachStep (s : WriteExecutor) (d : ℕ) : DetachPhase → Option WriteExecutor
  | .closing =>
      if s.lock = none then
        match s.sessionIndex (s.detaches d).session with
        | none => some (s.setDetach d .waiting)
        | some index =>
            match s.sessions[index]? with
            | none => none
            | some e =>
                if (s.detaches d).disposition = .discard then
                  some (((s.discard e.queue).setSession index
                    { e with closed := true, detached := true, queue := [] }).setDetach d .waiting)
                else some ((s.setSession index
                    { e with closed := true, detached := true }).setDetach d .waiting)
      else none
  | .waiting =>
      if s.lock = none ∧ ∀ e ∈ s.sessions.find? (fun e : SessionEntry => e.id = (s.detaches d).session),
          e.queue = [] ∧ e.executing = 0 then
        some (s.setDetach d .leaving)
      else none
  | .leaving =>
      if s.lock = none then
        some { s.setDetach d .ended with
          sessions := s.sessions.filter fun e => e.id ≠ (s.detaches d).session
          lent := s.lent - 1 }
      else none
  | _ => none

/-- The shutdown moves on. -/
def setShutdown (s : WriteExecutor) (j : ℕ) (ph : ShutdownPhase) : WriteExecutor :=
  { s with shutdowns := Function.update s.shutdowns j ph }

/-- The next step of a shutdown. -/
def shutdownStep (s : WriteExecutor) (j : ℕ) : ShutdownPhase → Option WriteExecutor
  | .storing => some { s.setShutdown j .notifying with closed := true }
  | .notifying => some (s.notifyAll.setShutdown j .taking)
  | .taking => some { s.setShutdown j (.joining s.workerExits) with workerExits := [] }
  | .joining (w :: exits) =>
      if s.worker w = .gone then some (s.setShutdown j (.joining exits)) else none
  | .joining [] => some (s.setShutdown j .clearing)
  | .clearing =>
      if s.lock = none then
        some { s.setShutdown j .returned with sessions := [], lent := s.lent - 1 }
      else none
  | _ => none

/-- Every handle has been dropped, and no call holds one. -/
def AllDropped (s : WriteExecutor) : Prop :=
  s.executorHandles = 0 ∧ (∀ id < s.nextSessionId, s.sessionHandles id = 0) ∧ s.lent = 0

instance (s : WriteExecutor) : Decidable s.AllDropped :=
  inferInstanceAs (Decidable (_ ∧ (∀ id < s.nextSessionId, s.sessionHandles id = 0) ∧ _))

/-- A session handle is lent to a call. -/
def lend (s : WriteExecutor) (id : ℕ) : WriteExecutor :=
  { s with
    lent := s.lent + 1
    sessionHandles := Function.update s.sessionHandles id (s.sessionHandles id - 1) }

/-- One event. -/
def step (s : WriteExecutor) : ExecutorEvent → Option WriteExecutor
  | .work w => if w < s.threads then s.workerStep w (s.worker w) else none
  | .execute w result =>
      match s.worker w with
      | .executing id item =>
          if w < s.threads then some (s.setWorker w (.sending id item (executeWrite result)))
          else none
      | _ => none
  | .spurious w => if s.worker w = .parked then some (s.setWorker w .waking) else none
  | .session job =>
      if s.lock = none ∧ 0 < s.executorHandles then
        some { s with
          sessions := s.sessions ++ [⟨s.nextSessionId, job, false, false, [], 0⟩]
          nextSessionId := s.nextSessionId + 1
          sessionHandles := Function.update s.sessionHandles s.nextSessionId 1
          jobOf := Function.update s.jobOf s.nextSessionId job }
      else none
  | .cloneExecutor =>
      if 0 < s.executorHandles then some { s with executorHandles := s.executorHandles + 1 }
      else none
  | .dropExecutor =>
      if 0 < s.executorHandles then some { s with executorHandles := s.executorHandles - 1 }
      else none
  | .cloneSession id =>
      if 0 < s.sessionHandles id then
        some { s with
          sessionHandles := Function.update s.sessionHandles id (s.sessionHandles id + 1) }
      else none
  | .dropSession id =>
      if 0 < s.sessionHandles id then
        some { s with
          sessionHandles := Function.update s.sessionHandles id (s.sessionHandles id - 1) }
      else none
  | .submit id write =>
      if 0 < s.sessionHandles id then
        some { s.lend id with
          submits := Function.update s.submits s.submitCount
            ⟨id, ⟨s.submitCount, write, write.data.length⟩, .entering⟩
          submitCount := s.submitCount + 1 }
      else none
  | .submitNext i => s.submitStep i (s.submits i).phase
  | .submitNotify i woken => s.submitNotify i woken
  | .submitCancel i =>
      if (s.submits i).phase = .acquiring then some (s.endSubmit i .ended) else none
  | .detach id disposition =>
      if 0 < s.sessionHandles id then
        some { s.lend id with
          detaches := Function.update s.detaches s.detachCount ⟨id, disposition, .closing⟩
          detachCount := s.detachCount + 1 }
      else none
  | .detachNext d => s.detachStep d (s.detaches d).phase
  | .detachCancel d =>
      if (s.detaches d).phase = .waiting then
        some { s.setDetach d .ended with lent := s.lent - 1 }
      else none
  | .shutdown =>
      if 0 < s.executorHandles then
        some { s.setShutdown s.shutdownCount .storing with
          shutdownCount := s.shutdownCount + 1
          executorHandles := s.executorHandles - 1
          lent := s.lent + 1 }
      else none
  | .shutdownNext j => s.shutdownStep j (s.shutdowns j)
  | .shutdownCancel j =>
      match s.shutdowns j with
      | .joining _ => some { s.setShutdown j .cancelled with lent := s.lent - 1 }
      | _ => none
  | .dropCore =>
      if s.AllDropped ∧ s.coreDropped = false ∧ ∀ w < s.threads, s.worker w = .gone then
        some { s with closed := true, coreDropped := true }.notifyAll
      else none

end WriteExecutor

end KDown
