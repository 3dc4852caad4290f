/-
KDown/WriteExecutorInv.lean

The mutex of the write executor and what is true under it.

Steps fall into two kinds: a writer thread moves on (`workerStep`), or
somebody else acts, who at most wakes parked threads and changes the registry
when the mutex is free (`Quiet`).  Each invariant is shown for both kinds
once.
-/
import KDown.WriteExecutor

namespace KDown

namespace WriterPhase

/-- The thread holds the state mutex. -/
def holdsLock : WriterPhase → Bool
  | .scanning => true
  | .checking => true
  | .parking _ => true
  | .announcing => true
  | .broadcasting => true
  | _ => false

/-- The session whose write the thread has taken and not counted down. -/
def busyWith : WriterPhase → Option ℕ
  | .executing id _ => some id
  | .sending id _ _ => some id
  | .releasing id _ => some id
  | .settling id => some id
  | _ => none

/-- The thread has taken a write and not gone through `settle` yet. -/
def isBusy : WriterPhase → Bool
  | .executing _ _ => true
  | .sending _ _ _ => true
  | .releasing _ _ => true
  | .settling _ => true
  | .announcing => true
  | .broadcasting => true
  | _ => false

/-- Under the mutex the thread has seen that nothing is queued. -/
def sawDrained : WriterPhase → Bool
  | .checking => true
  | .parking _ => true
  | _ => false

theorem holdsLock_of_sawDrained {ph : WriterPhase} (h : ph.sawDrained = true) :
    ph.holdsLock = true := by
  cases ph <;> first | rfl | cases h

theorem isBusy_of_busyWith {ph : WriterPhase} {id : ℕ} (h : ph.busyWith = some id) :
    ph.isBusy = true := by
  cases ph <;> first | rfl | cases h

end WriterPhase

/-- The call has set the flag. -/
def ShutdownPhase.hasStored : ShutdownPhase → Bool
  | .unused => false
  | .storing => false
  | _ => true

/-- The thread an event is a step of. -/
def ExecutorEvent.thread : ExecutorEvent → Option ℕ
  | .work w => some w
  | .execute w _ => some w
  | _ => none

namespace WriteExecutor

variable {s s' : WriteExecutor} {w : ℕ}

/-- How many threads have a write of session `id`. -/
def busyCount (s : WriteExecutor) (id : ℕ) : ℕ :=
  tally s.threads (fun ph => if ph.busyWith = some id then 1 else 0) s.worker

/-- The mutex, the threads and the table of sessions fit together. -/
structure ExecutorInv (s : WriteExecutor) : Prop where
  lock : ∀ w, (s.worker w).holdsLock = true ↔ s.lock = some w
  absent : ∀ w, s.worker w = .absent ↔ s.threads ≤ w
  nodup : (s.sessions.map SessionEntry.id).Nodup
  lt_next : ∀ e ∈ s.sessions, e.id < s.nextSessionId
  busy : ∀ e ∈ s.sessions, e.executing ≤ s.busyCount e.id
  drained : ∀ w, (s.worker w).sawDrained = true → ∀ e ∈ s.sessions, e.queue = []
  /-- A thread that waits although the flag is set has somebody to wake it. -/
  waits : ∀ w, s.worker w = .parking true → ∃ w', (s.worker w').isBusy = true
  flag : ∀ j, (s.shutdowns j).hasStored = true → s.closed = true

/-- A new executor has no sessions, and its threads enter their loops. -/
theorem ExecutorInv.new (n m : ℕ) : ExecutorInv (new n m) := by
  have hworker : ∀ w, ((WriteExecutor.new n m).worker w = .entering ∧ w < max n 1) ∨
      ((WriteExecutor.new n m).worker w = .absent ∧ max n 1 ≤ w) := by
    intro w
    by_cases hw : w < max n 1
    · exact .inl ⟨if_pos hw, hw⟩
    · exact .inr ⟨if_neg hw, not_lt.mp hw⟩
  refine ⟨fun w => ?_, fun w => ?_, List.nodup_nil, ?_, ?_, ?_, fun w hw => ?_, ?_⟩
  · rcases hworker w with ⟨h, -⟩ | ⟨h, -⟩ <;> rw [h] <;>
      simp [WriterPhase.holdsLock, WriteExecutor.new]
  · rcases hworker w with ⟨h, hlt⟩ | ⟨h, hle⟩
    · rw [h]
      exact ⟨nofun, fun hle => absurd hlt (not_lt.mpr hle)⟩
    · exact ⟨fun _ => hle, fun _ => h⟩
  · intro e he
    cases he
  · intro e he
    cases he
  · intro w _ e he
    cases he
  · rcases hworker w with ⟨h, -⟩ | ⟨h, -⟩ <;> rw [h] at hw <;> cases hw
  · intro j hj
    cases hj

/-! ### Somebody else acts -/

/-- A step of somebody who is no writer thread. -/
structure Quiet (s s' : WriteExecutor) : Prop where
  threads : s'.threads = s.threads
  woken : ∀ w, s'.worker w = s.worker w ∨ s.worker w = .parked ∧ s'.worker w = .waking
  lock : s'.lock = s.lock
  closed : s.closed = true → s'.closed = true
  nodup : (s'.sessions.map SessionEntry.id).Nodup
  lt_next : ∀ e ∈ s'.sessions, e.id < s'.nextSessionId
  executing : ∀ e' ∈ s'.sessions, e'.executing = 0 ∨
    ∃ e ∈ s.sessions, e.id = e'.id ∧ e.executing = e'.executing
  queues : s.lock = none ∨ ∀ e' ∈ s'.sessions, e'.queue ≠ [] → e' ∈ s.sessions
  flag : ∀ j, (s'.shutdowns j).hasStored = true →
    (s.shutdowns j).hasStored = true ∨ s'.closed = true
  /-- The flag is set by a shutdown, or by the destructor after the threads. -/
  source : s'.closed = true → s.closed = true ∨ (∃ j, (s'.shutdowns j).hasStored = true) ∨
    ∀ w < s.threads, s.worker w = .gone

theorem Quiet.holdsLock (h : Quiet s s') (w : ℕ) :
    (s'.worker w).holdsLock = (s.worker w).holdsLock := by
  rcases h.woken w with hsame | ⟨hold, hnew⟩
  · rw [hsame]
  · rw [hold, hnew]
    rfl

theorem Quiet.isBusy (h : Quiet s s') (w : ℕ) : (s'.worker w).isBusy = (s.worker w).isBusy := by
  rcases h.woken w with hsame | ⟨hold, hnew⟩
  · rw [hsame]
  · rw [hold, hnew]
    rfl

/-- A thread that is not just woken stays where it is. -/
theorem Quiet.worker (h : Quiet s s') {w : ℕ} {ph : WriterPhase} (hw : s'.worker w = ph)
    (hne : ph ≠ .waking) : s.worker w = ph := by
  rcases h.woken w with hsame | ⟨-, hnew⟩
  · exact hsame.symm.trans hw
  · exact absurd (hw.symm.trans hnew) hne

/-- Parties for whom waking makes no difference. -/
theorem Quiet.tally (h : Quiet s s') {f : WriterPhase → ℕ} (hf : f .waking = f .parked) :
    tally s'.threads f s'.worker = KDown.tally s.threads f s.worker := by
  rw [h.threads]
  refine tally_congr fun w _ => ?_
  rcases h.woken w with hsame | ⟨hold, hnew⟩
  · rw [hsame]
  · rw [hold, hnew, hf]

/-- A step of no thread keeps the invariant. -/
theorem ExecutorInv.quiet (hi : ExecutorInv s) (h : Quiet s s') : ExecutorInv s' where
  lock := fun w => by
    rw [h.holdsLock, h.lock]
    exact hi.lock w
  absent := fun w => by
    rw [h.threads, ← hi.absent w]
    rcases h.woken w with hsame | ⟨hold, hnew⟩
    · rw [hsame]
    · rw [hold, hnew]
      constructor <;> intro he <;> cases he
  nodup := h.nodup
  lt_next := h.lt_next
  busy := fun e' he' => by
    have hcount : s'.busyCount e'.id = s.busyCount e'.id := h.tally rfl
    rw [hcount]
    rcases h.executing e' he' with hzero | ⟨e, he, hid, hexec⟩
    · rw [hzero]
      exact Nat.zero_le _
    · rw [← hid, ← hexec]
      exact hi.busy e he
  drained := fun w hw e' he' => by
    by_contra hne
    have hph : s.worker w = s'.worker w := by
      refine h.worker rfl fun hwak => ?_
      rw [hwak] at hw
      cases hw
    rw [← hph] at hw
    rcases h.queues with hfree | hkept
    · have hlock := (hi.lock w).mp (WriterPhase.holdsLock_of_sawDrained hw)
      rw [hfree] at hlock
      cases hlock
    · exact hne (hi.drained w hw e' (hkept e' he' hne))
  waits := fun w hw => by
    have hold : s.worker w = .parking true := h.worker hw (fun he => by cases he)
    obtain ⟨w', hw'⟩ := hi.waits w hold
    exact ⟨w', by rw [h.isBusy]; exact hw'⟩
  flag := fun j hj => by
    rcases h.flag j hj with hold | hclosed
    · exact h.closed (hi.flag j hold)
    · exact hclosed

/-- Nothing of all that changes. -/
theorem Quiet.of_eq (hi : ExecutorInv s) (hthreads : s'.threads = s.threads)
    (hworker : s'.worker = s.worker) (hlock : s'.lock = s.lock) (hclosed : s'.closed = s.closed)
    (hsessions : s'.sessions = s.sessions) (hnext : s'.nextSessionId = s.nextSessionId)
    (hflag : ∀ j, (s'.shutdowns j).hasStored = true → (s.shutdowns j).hasStored = true) :
    Quiet s s' where
  threads := hthreads
  woken := fun w => .inl (congrFun hworker w)
  lock := hlock
  closed := fun h => hclosed.trans h
  nodup := hsessions ▸ hi.nodup
  lt_next := fun e he => by
    rw [hnext]
    exact hi.lt_next e (hsessions ▸ he)
  executing := fun e he => .inr ⟨e, hsessions ▸ he, rfl, rfl⟩
  queues := .inr fun e he _ => hsessions ▸ he
  flag := fun j hj => .inl (hflag j hj)
  source := fun h => .inl (hclosed ▸ h)

theorem map_id_set {l : List SessionEntry} {index : ℕ} {e e' : SessionEntry}
    (he : l[index]? = some e) (hid : e'.id = e.id) :
    (l.set index e').map SessionEntry.id = l.map SessionEntry.id := by
  apply List.ext_getElem?
  intro i
  rw [List.getElem?_map, List.getElem?_map, List.getElem?_set]
  split
  · next hi =>
    subst hi
    rw [he]
    split
    · exact congrArg some hid
    · next hlt => exact absurd (List.getElem?_eq_some_iff.mp he).1 hlt
  · rfl

/-- An entry changes, but neither its identity nor its count. -/
theorem Quiet.of_set (hi : ExecutorInv s) {index : ℕ} {e e' : SessionEntry}
    (hsessions : s'.sessions = s.sessions.set index e') (he : s.sessions[index]? = some e)
    (hid : e'.id = e.id) (hexec : e'.executing = e.executing) (hfree : s.lock = none)
    (hthreads : s'.threads = s.threads) (hworker : s'.worker = s.worker) (hlock : s'.lock = s.lock)
    (hclosed : s'.closed = s.closed) (hnext : s'.nextSessionId = s.nextSessionId)
    (hflag : s'.shutdowns = s.shutdowns) : Quiet s s' := by
  have hmem := List.mem_of_getElem? he
  refine ⟨hthreads, fun w => .inl (congrFun hworker w), hlock, fun h => hclosed.trans h, ?_,
    fun x hx => ?_, fun x hx => ?_, .inl hfree, fun j hj => .inl (hflag ▸ hj),
    fun h => .inl (hclosed ▸ h)⟩
  · rw [hsessions, map_id_set he hid]
    exact hi.nodup
  · rw [hnext]
    rcases List.mem_or_eq_of_mem_set (hsessions ▸ hx) with hin | rfl
    · exact hi.lt_next x hin
    · rw [hid]
      exact hi.lt_next e hmem
  · rcases List.mem_or_eq_of_mem_set (hsessions ▸ hx) with hin | rfl
    · exact .inr ⟨x, hin, rfl, rfl⟩
    · exact .inr ⟨e, hmem, hid.symm, hexec.symm⟩

/-- Entries leave the registry. -/
theorem Quiet.of_sublist (hi : ExecutorInv s) (hsessions : s'.sessions.Sublist s.sessions)
    (hthreads : s'.threads = s.threads) (hworker : s'.worker = s.worker) (hlock : s'.lock = s.lock)
    (hclosed : s'.closed = s.closed) (hnext : s'.nextSessionId = s.nextSessionId)
    (hflag : ∀ j, (s'.shutdowns j).hasStored = true → (s.shutdowns j).hasStored = true) :
    Quiet s s' where
  threads := hthreads
  woken := fun w => .inl (congrFun hworker w)
  lock := hlock
  closed := fun h => hclosed.trans h
  nodup := hi.nodup.sublist (hsessions.map _)
  lt_next := fun e he => by
    rw [hnext]
    exact hi.lt_next e (hsessions.subset he)
  executing := fun e he => .inr ⟨e, hsessions.subset he, rfl, rfl⟩
  queues := .inr fun e he _ => hsessions.subset he
  flag := fun j hj => .inl (hflag j hj)
  source := fun h => .inl (hclosed ▸ h)

/-- Threads are woken. -/
theorem Quiet.of_woken (hi : ExecutorInv s) (hthreads : s'.threads = s.threads)
    (hwoken : ∀ w, s'.worker w = s.worker w ∨ s.worker w = .parked ∧ s'.worker w = .waking)
    (hlock : s'.lock = s.lock) (hclosed : s.closed = true → s'.closed = true)
    (hsessions : s'.sessions = s.sessions) (hnext : s'.nextSessionId = s.nextSessionId)
    (hflag : ∀ j, (s'.shutdowns j).hasStored = true →
      (s.shutdowns j).hasStored = true ∨ s'.closed = true)
    (hsource : s'.closed = true → s.closed = true ∨ (∃ j, (s'.shutdowns j).hasStored = true) ∨
      ∀ w < s.threads, s.worker w = .gone) : Quiet s s' where
  threads := hthreads
  woken := hwoken
  lock := hlock
  closed := hclosed
  nodup := hsessions ▸ hi.nodup
  lt_next := fun e he => by
    rw [hnext]
    exact hi.lt_next e (hsessions ▸ he)
  executing := fun e he => .inr ⟨e, hsessions ▸ he, rfl, rfl⟩
  queues := .inr fun e he _ => hsessions ▸ he
  flag := hflag
  source := hsource

theorem notifyAll_woken (s : WriteExecutor) (w : ℕ) :
    s.notifyAll.worker w = s.worker w ∨ s.worker w = .parked ∧ s.notifyAll.worker w = .waking := by
  show (if s.worker w = .parked then WriterPhase.waking else s.worker w) = _ ∨ _ ∧
    (if s.worker w = .parked then WriterPhase.waking else s.worker w) = _
  split
  · next h => exact .inr ⟨h, rfl⟩
  · exact .inl rfl

theorem setWorker_woken (h : s.worker w = .parked) (w' : ℕ) :
    (s.setWorker w .waking).worker w' = s.worker w' ∨
      s.worker w' = .parked ∧ (s.setWorker w .waking).worker w' = .waking := by
  by_cases hw : w' = w
  · subst hw
    exact .inr ⟨h, Function.update_self ..⟩
  · exact .inl (Function.update_of_ne hw ..)

theorem shutdowns_setShutdown (j : ℕ) (ph : ShutdownPhase) :
    (s.setShutdown j ph).shutdowns = Function.update s.shutdowns j ph := rfl

/-- A call goes on: whether it had set the flag does not change. -/
theorem hasStored_setShutdown {j : ℕ} {ph : ShutdownPhase}
    (h : ph.hasStored = true → (s.shutdowns j).hasStored = true) (k : ℕ)
    (hk : ((s.setShutdown j ph).shutdowns k).hasStored = true) :
    (s.shutdowns k).hasStored = true := by
  by_cases hkj : k = j
  · subst hkj
    apply h
    rwa [shutdowns_setShutdown, Function.update_self] at hk
  · rwa [shutdowns_setShutdown, Function.update_of_ne hkj] at hk

/-- What an event that is no thread's step can be. -/
inductive CallStep (s : WriteExecutor) : ExecutorEvent → WriteExecutor → Prop
  | spurious {w : ℕ} (h : s.worker w = .parked) : CallStep s (.spurious w) (s.setWorker w .waking)
  | session (job : ℕ) (hfree : s.lock = none) (h : 0 < s.executorHandles) :
      CallStep s (.session job) { s with
        sessions := s.sessions ++ [⟨s.nextSessionId, job, false, false, [], 0⟩]
        nextSessionId := s.nextSessionId + 1
        sessionHandles := Function.update s.sessionHandles s.nextSessionId 1
        jobOf := Function.update s.jobOf s.nextSessionId job }
  | executorHandle {e : ExecutorEvent} (he : e = .cloneExecutor ∨ e = .dropExecutor) (n : ℕ) :
      CallStep s e { s with executorHandles := n }
  | sessionHandle {e : ExecutorEvent} {id : ℕ} (he : e = .cloneSession id ∨ e = .dropSession id)
      (h : 0 < s.sessionHandles id) (n : ℕ) :
      CallStep s e { s with sessionHandles := Function.update s.sessionHandles id n }
  | submit (id : ℕ) (write : WriteSubmission) (h : 0 < s.sessionHandles id) :
      CallStep s (.submit id write) { s.lend id with
        submits := Function.update s.submits s.submitCount
          ⟨id, ⟨s.submitCount, write, write.data.length⟩, .entering⟩
        submitCount := s.submitCount + 1 }
  | reject {i : ℕ} (h : (s.submits i).phase = .entering) :
      CallStep s (.submitNext i) (s.endSubmit i .ended)
  | begin {i : ℕ} (h : (s.submits i).phase = .entering) (hopen : s.closed = false) :
      CallStep s (.submitNext i) (s.setSubmit i .acquiring)
  | acquire {i : ℕ} (h : (s.submits i).phase = .acquiring) :
      CallStep s (.submitNext i)
        { s.setSubmit i .enqueueing with outstanding := s.outstanding + (s.item i).bytes }
  | enqueue {i index : ℕ} {e : SessionEntry} (h : (s.submits i).phase = .enqueueing)
      (hfree : s.lock = none) (he : s.sessions[index]? = some e)
      (hid : e.id = (s.submits i).session) (hopen : e.closed = false) :
      CallStep s (.submitNext i)
        ((s.setSession index { e with queue := e.queue ++ [s.item i] }).setSubmit i .notifying)
  | refuse {i : ℕ} (h : (s.submits i).phase = .enqueueing) :
      CallStep s (.submitNext i) (s.setSubmit i .refunding)
  | refund {i : ℕ} (h : (s.submits i).phase = .refunding) :
      CallStep s (.submitNext i) ((s.release (s.item i)).endSubmit i .refused)
  | notifyNobody {i : ℕ} (h : (s.submits i).phase = .notifying)
      (hno : ∀ w < s.threads, s.worker w ≠ .parked) :
      CallStep s (.submitNotify i none) (s.endSubmit i .accepted)
  | notifyOne {i w : ℕ} (h : (s.submits i).phase = .notifying) (hw : w < s.threads)
      (hparked : s.worker w = .parked) :
      CallStep s (.submitNotify i (some w)) ((s.setWorker w .waking).endSubmit i .accepted)
  | cancelSubmit {i : ℕ} (h : (s.submits i).phase = .acquiring) :
      CallStep s (.submitCancel i) (s.endSubmit i .ended)
  | detach (id : ℕ) (disposition : SessionDisposition) (h : 0 < s.sessionHandles id) :
      CallStep s (.detach id disposition) { s.lend id with
        detaches := Function.update s.detaches s.detachCount ⟨id, disposition, .closing⟩
        detachCount := s.detachCount + 1 }
  | closeAbsent {d : ℕ} (h : (s.detaches d).phase = .closing)
      (hnone : ∀ e ∈ s.sessions, e.id ≠ (s.detaches d).session) :
      CallStep s (.detachNext d) (s.setDetach d .waiting)
  | closeDiscard {d index : ℕ} {e : SessionEntry} (h : (s.detaches d).phase = .closing)
      (hfree : s.lock = none) (he : s.sessions[index]? = some e)
      (hid : e.id = (s.detaches d).session) :
      CallStep s (.detachNext d) (((s.discard e.queue).setSession index
        { e with closed := true, detached := true, queue := [] }).setDetach d .waiting)
  | closeDrain {d index : ℕ} {e : SessionEntry} (h : (s.detaches d).phase = .closing)
      (hfree : s.lock = none) (he : s.sessions[index]? = some e)
      (hid : e.id = (s.detaches d).session) :
      CallStep s (.detachNext d) ((s.setSession index
        { e with closed := true, detached := true }).setDetach d .waiting)
  | settled {d : ℕ} (h : (s.detaches d).phase = .waiting)
      (hset : ∀ e ∈ s.sessions.find? (fun e : SessionEntry => e.id = (s.detaches d).session),
        e.queue = [] ∧ e.executing = 0) :
      CallStep s (.detachNext d) (s.setDetach d .leaving)
  | remove {d : ℕ} (h : (s.detaches d).phase = .leaving) :
      CallStep s (.detachNext d) { s.setDetach d .ended with
        sessions := s.sessions.filter fun e => e.id ≠ (s.detaches d).session
        lent := s.lent - 1 }
  | cancelDetach {d : ℕ} (h : (s.detaches d).phase = .waiting) :
      CallStep s (.detachCancel d) { s.setDetach d .ended with lent := s.lent - 1 }
  | shutdown (h : 0 < s.executorHandles) :
      CallStep s .shutdown { s.setShutdown s.shutdownCount .storing with
        shutdownCount := s.shutdownCount + 1
        executorHandles := s.executorHandles - 1
        lent := s.lent + 1 }
  | store {j : ℕ} (h : s.shutdowns j = .storing) :
      CallStep s (.shutdownNext j) { s.setShutdown j .notifying with closed := true }
  | notify {j : ℕ} (h : s.shutdowns j = .notifying) :
      CallStep s (.shutdownNext j) (s.notifyAll.setShutdown j .taking)
  | takeExits {j : ℕ} (h : s.shutdowns j = .taking) :
      CallStep s (.shutdownNext j)
        { s.setShutdown j (.joining s.workerExits) with workerExits := [] }
  | join {j w : ℕ} {exits : List ℕ} (h : s.shutdowns j = .joining (w :: exits)) :
      CallStep s (.shutdownNext j) (s.setShutdown j (.joining exits))
  | joined {j : ℕ} (h : s.shutdowns j = .joining []) :
      CallStep s (.shutdownNext j) (s.setShutdown j .clearing)
  | clear {j : ℕ} (h : s.shutdowns j = .clearing) :
      CallStep s (.shutdownNext j)
        { s.setShutdown j .returned with sessions := [], lent := s.lent - 1 }
  | cancelShutdown {j : ℕ} {exits : List ℕ} (h : s.shutdowns j = .joining exits) :
      CallStep s (.shutdownCancel j) { s.setShutdown j .cancelled with lent := s.lent - 1 }
  | dropCore (hall : s.AllDropped) (hgone : ∀ w < s.threads, s.worker w = .gone) :
      CallStep s .dropCore { s with closed := true, coreDropped := true }.notifyAll

theorem sessionIndex_some {id index : ℕ} (h : s.sessionIndex id = some index) :
    ∃ e, s.sessions[index]? = some e ∧ e.id = id := by
  obtain ⟨hlt, hp, -⟩ := List.findIdx?_eq_some_iff_getElem.mp h
  exact ⟨s.sessions[index], List.getElem?_eq_getElem hlt, by simpa using hp⟩

theorem sessionIndex_none {id : ℕ} (h : s.sessionIndex id = none) :
    ∀ e ∈ s.sessions, e.id ≠ id := by
  intro e he hid
  have hno := List.findIdx?_eq_none_iff.mp h e he
  simp [hid] at hno

/-- The steps of a submission. -/
theorem callStep_of_submitStep {i : ℕ} (h : s.submitStep i (s.submits i).phase = some s') :
    CallStep s (.submitNext i) s' := by
  rcases hph : (s.submits i).phase <;> rw [hph] at h <;> simp only [submitStep] at h
  case entering =>
    split_ifs at h with hclosed hjob <;> cases h
    · exact .reject hph
    · exact .begin hph (by simpa using hclosed)
    · exact .reject hph
  case acquiring =>
    split_ifs at h
    cases h
    exact .acquire hph
  case enqueueing =>
    split at h
    · next hfree =>
      split at h
      · cases h
        exact .refuse hph
      · next index hindex =>
        obtain ⟨e, he, hid⟩ := sessionIndex_some hindex
        simp only [he] at h
        split at h
        · cases h
          exact .refuse hph
        · next hopen =>
          cases h
          exact .enqueue hph hfree he hid (by simpa using hopen)
    · cases h
  case refunding =>
    cases h
    exact .refund hph
  all_goals cases h

/-- The steps of a detachment. -/
theorem callStep_of_detachStep {d : ℕ} (h : s.detachStep d (s.detaches d).phase = some s') :
    CallStep s (.detachNext d) s' := by
  rcases hph : (s.detaches d).phase <;> rw [hph] at h <;> simp only [detachStep] at h
  case closing =>
    split at h
    · next hfree =>
      split at h
      · next hnone =>
        cases h
        exact .closeAbsent hph (sessionIndex_none hnone)
      · next index hindex =>
        obtain ⟨e, he, hid⟩ := sessionIndex_some hindex
        simp only [he] at h
        split at h <;> cases h
        · exact .closeDiscard hph hfree he hid
        · exact .closeDrain hph hfree he hid
    · cases h
  case waiting =>
    split_ifs at h with hset
    cases h
    exact .settled hph hset.2
  case leaving =>
    split_ifs at h
    cases h
    exact .remove hph
  all_goals cases h

/-- The steps of a shutdown. -/
theorem callStep_of_shutdownStep {j : ℕ} (h : s.shutdownStep j (s.shutdowns j) = some s') :
    CallStep s (.shutdownNext j) s' := by
  rcases hph : s.shutdowns j with - | - | - | - | (- | ⟨w, exits⟩) | - | - | - <;> rw [hph] at h <;>
    simp only [shutdownStep] at h
  · cases h
  · cases h
    exact .store hph
  · cases h
    exact .notify hph
  · cases h
    exact .takeExits hph
  · cases h
    exact .joined hph
  · split_ifs at h
    cases h
    exact .join hph
  · split_ifs at h
    cases h
    exact .clear hph
  · cases h
  · cases h

/-- Each event of a caller is one of the steps over which the invariants are
proved. -/
theorem callStep_of_step {e : ExecutorEvent} (hnone : e.thread = none) (h : s.step e = some s') :
    CallStep s e s' := by
  cases e <;> simp only [step] at h
  case work => cases hnone
  case execute => cases hnone
  case submitNext => exact callStep_of_submitStep h
  case submitNotify i woken =>
    rcases woken with - | w <;> simp only [submitNotify] at h <;> split_ifs at h with hn <;> cases h
    · exact .notifyNobody hn.1 hn.2
    · exact .notifyOne hn.1 hn.2.1 hn.2.2
  case detachNext => exact callStep_of_detachStep h
  case shutdownNext => exact callStep_of_shutdownStep h
  case shutdownCancel =>
    split at h
    · next hph =>
      cases h
      exact .cancelShutdown hph
    · cases h
  case spurious =>
    split_ifs at h with hc
    cases h
    exact .spurious hc
  case session job =>
    split_ifs at h with hc
    cases h
    exact .session job hc.1 hc.2
  case cloneExecutor =>
    split_ifs at h
    cases h
    exact .executorHandle (.inl rfl) _
  case dropExecutor =>
    split_ifs at h
    cases h
    exact .executorHandle (.inr rfl) _
  case cloneSession =>
    split_ifs at h with hc
    cases h
    exact .sessionHandle (.inl rfl) hc _
  case dropSession =>
    split_ifs at h with hc
    cases h
    exact .sessionHandle (.inr rfl) hc _
  case submit id write =>
    split_ifs at h with hc
    cases h
    exact .submit id write hc
  case submitCancel =>
    split_ifs at h with hc
    cases h
    exact .cancelSubmit hc
  case detach id disposition =>
    split_ifs at h with hc
    cases h
    exact .detach id disposition hc
  case detachCancel =>
    split_ifs at h with hc
    cases h
    exact .cancelDetach hc
  case shutdown =>
    split_ifs at h with hc
    cases h
    exact .shutdown hc
  case dropCore =>
    split_ifs at h with hc
    cases h
    exact .dropCore hc.1 hc.2.2

/-- Calls take no thread's lock. -/
theorem CallStep.quiet (hi : ExecutorInv s) {e : ExecutorEvent} (h : CallStep s e s') :
    Quiet s s' := by
  cases h with
  | spurious h => exact .of_woken hi rfl (setWorker_woken h) rfl id rfl rfl (fun _ => .inl) .inl
  | session job hfree h =>
    refine ⟨rfl, fun _ => .inl rfl, rfl, id, ?_, fun e he => ?_, fun e he => ?_, .inl hfree,
      fun _ => .inl, .inl⟩
    · show (List.map SessionEntry.id (s.sessions ++ [_])).Nodup
      rw [List.map_append]
      refine List.nodup_append.mpr ⟨hi.nodup, List.nodup_singleton _, fun a ha b hb => ?_⟩
      obtain ⟨e, he, rfl⟩ := List.mem_map.mp ha
      rw [List.mem_singleton.mp hb]
      exact Nat.ne_of_lt (hi.lt_next e he)
    · rcases List.mem_append.mp he with hin | hin
      · exact (hi.lt_next e hin).trans (Nat.lt_succ_self _)
      · rw [List.mem_singleton.mp hin]
        exact Nat.lt_succ_self _
    · rcases List.mem_append.mp he with hin | hin
      · exact .inr ⟨e, hin, rfl, rfl⟩
      · rw [List.mem_singleton.mp hin]
        exact .inl rfl
  | enqueue h hfree he hid hopen => exact .of_set hi rfl he rfl rfl hfree rfl rfl rfl rfl rfl rfl
  | notifyOne h hw hparked =>
    exact .of_woken hi rfl (setWorker_woken hparked) rfl id rfl rfl (fun _ => .inl) .inl
  | closeDiscard h hfree he hid => exact .of_set hi rfl he rfl rfl hfree rfl rfl rfl rfl rfl rfl
  | closeDrain h hfree he hid => exact .of_set hi rfl he rfl rfl hfree rfl rfl rfl rfl rfl rfl
  | remove h => exact .of_sublist hi List.filter_sublist rfl rfl rfl rfl rfl fun _ => id
  | shutdown h =>
    refine .of_eq hi rfl rfl rfl rfl rfl rfl ?_
    exact hasStored_setShutdown fun hc => by cases hc
  | @store j h =>
    refine .of_woken hi rfl (fun _ => .inl rfl) rfl (fun _ => rfl) rfl rfl (fun _ _ => .inr rfl)
      fun _ => .inr (.inl ⟨j, ?_⟩)
    show (Function.update s.shutdowns j .notifying j).hasStored = true
    rw [Function.update_self]
    rfl
  | notify h =>
    refine .of_woken hi rfl (notifyAll_woken s) rfl id rfl rfl (fun k hk => .inl ?_) .inl
    exact hasStored_setShutdown (fun _ => by rw [h]; rfl) k hk
  | takeExits h =>
    exact .of_eq hi rfl rfl rfl rfl rfl rfl (hasStored_setShutdown fun _ => by rw [h]; rfl)
  | join h =>
    exact .of_eq hi rfl rfl rfl rfl rfl rfl (hasStored_setShutdown fun _ => by rw [h]; rfl)
  | joined h =>
    exact .of_eq hi rfl rfl rfl rfl rfl rfl (hasStored_setShutdown fun _ => by rw [h]; rfl)
  | clear h =>
    exact .of_sublist hi (List.nil_sublist _) rfl rfl rfl rfl rfl
      (hasStored_setShutdown fun _ => by rw [h]; rfl)
  | cancelShutdown h =>
    exact .of_eq hi rfl rfl rfl rfl rfl rfl (hasStored_setShutdown fun _ => by rw [h]; rfl)
  | dropCore hall hgone =>
    exact .of_woken hi rfl (notifyAll_woken s) rfl (fun _ => rfl) rfl rfl (fun _ => .inl)
      fun _ => .inr (.inr hgone)
  | _ => exact .of_eq hi rfl rfl rfl rfl rfl rfl fun _ => id

/-- An event that is no thread's step is quiet. -/
theorem quiet_of_step (hi : ExecutorInv s) {e : ExecutorEvent} (hnone : e.thread = none)
    (h : s.step e = some s') : Quiet s s' := (callStep_of_step hnone h).quiet hi

/-! ### A thread moves on -/

/-- What a step of thread `w` can be. -/
inductive ThreadStep (s : WriteExecutor) (w : ℕ) : WriteExecutor → Prop
  | enter (h : s.worker w = .entering ∨ s.worker w = .waking) (hfree : s.lock = none) :
      ThreadStep s w ((s.setWorker w .scanning).setLock (some w))
  | take {index : ℕ} {e : SessionEntry} {item : QueuedWrite} {rest : List QueuedWrite}
      (h : s.worker w = .scanning) (he : s.sessions[index]? = some e)
      (hq : e.queue = item :: rest) :
      ThreadStep s w { ((s.setSession index
          { e with queue := rest, executing := e.executing + 1 }).setWorker w
            (.executing e.id item)).setLock none with
        cursor := (index + 1) % s.sessions.length }
  | noWork (h : s.worker w = .scanning) (hq : ∀ e ∈ s.sessions, e.queue = []) :
      ThreadStep s w (s.setWorker w .checking)
  | exit (h : s.worker w = .checking) (hclosed : s.closed = true) (hset : s.Settled) :
      ThreadStep s w ((s.setWorker w .exiting).setLock none)
  | stay (h : s.worker w = .checking) (hset : s.closed = true → ¬ s.Settled) :
      ThreadStep s w (s.setWorker w (.parking s.closed))
  | park {sawClosed : Bool} (h : s.worker w = .parking sawClosed) :
      ThreadStep s w ((s.setWorker w .parked).setLock none)
  | execute {id : ℕ} {item : QueuedWrite} (outcome : WriteOutcome)
      (h : s.worker w = .executing id item) : ThreadStep s w (s.setWorker w (.sending id item outcome))
  | send {id : ℕ} {item : QueuedWrite} {outcome : WriteOutcome}
      (h : s.worker w = .sending id item outcome) :
      ThreadStep s w ((s.deliver item outcome).setWorker w (.releasing id item))
  | release {id : ℕ} {item : QueuedWrite} (h : s.worker w = .releasing id item) :
      ThreadStep s w ((s.release item).setWorker w (.settling id))
  | settle {id : ℕ} (h : s.worker w = .settling id) (hfree : s.lock = none) :
      ThreadStep s w (((s.countDown id).setWorker w .announcing).setLock (some w))
  | announce (h : s.worker w = .announcing) (hclosed : s.closed = true) :
      ThreadStep s w (s.setWorker w .broadcasting)
  | goOn (h : s.worker w = .announcing) (hclosed : s.closed = false) :
      ThreadStep s w ((s.setWorker w .entering).setLock none)
  | broadcast (h : s.worker w = .broadcasting) :
      ThreadStep s w ((s.notifyAll.setWorker w .entering).setLock none)
  | leave (h : s.worker w = .exiting) : ThreadStep s w (s.setWorker w .gone)

theorem pick_some {index : ℕ} (h : s.pick = some index) :
    ∃ e, s.sessions[index]? = some e ∧ e.queue ≠ [] := by
  have hp := List.find?_some h
  rcases he : s.sessions[index]? with - | e
  · rw [he] at hp
    cases hp
  · rw [he] at hp
    exact ⟨e, rfl, by simpa using hp⟩

/-- The round from the cursor misses no session. -/
theorem pick_none (h : s.pick = none) : ∀ e ∈ s.sessions, e.queue = [] := by
  intro e he
  obtain ⟨index, hlt, rfl⟩ := List.getElem_of_mem he
  have hall := List.find?_eq_none.mp h
  have hmem : index ∈ (List.range s.sessions.length).map fun offset =>
      (s.cursor % s.sessions.length + offset) % s.sessions.length := by
    have hstart : s.cursor % s.sessions.length < s.sessions.length :=
      Nat.mod_lt _ (Nat.zero_lt_of_lt hlt)
    generalize s.cursor % s.sessions.length = start at hstart
    by_cases hle : start ≤ index
    · refine List.mem_map.mpr ⟨index - start, List.mem_range.mpr (by omega), ?_⟩
      rw [show start + (index - start) = index by omega, Nat.mod_eq_of_lt hlt]
    · refine List.mem_map.mpr
        ⟨index + s.sessions.length - start, List.mem_range.mpr (by omega), ?_⟩
      rw [show start + (index + s.sessions.length - start) = index + s.sessions.length by omega,
        Nat.add_mod_right, Nat.mod_eq_of_lt hlt]
  have hno := hall index hmem
  rw [List.getElem?_eq_getElem hlt] at hno
  simpa using hno

/-- The steps of a thread, by its phase. -/
theorem threadStep_of_workerStep (h : s.workerStep w (s.worker w) = some s') :
    ThreadStep s w s' := by
  rcases hph : s.worker w <;> rw [hph] at h <;> simp only [workerStep] at h
  case entering =>
    split_ifs at h with hfree
    cases h
    exact .enter (.inl hph) hfree
  case waking =>
    split_ifs at h with hfree
    cases h
    exact .enter (.inr hph) hfree
  case scanning =>
    split at h
    · next index hpick =>
      obtain ⟨e, he, hne⟩ := pick_some hpick
      simp only [WriteExecutor.take, he] at h
      split at h
      · cases h
      · next hq =>
        cases h
        exact .take hph he hq
    · next hpick =>
      cases h
      exact .noWork hph (pick_none hpick)
  case checking =>
    split_ifs at h with hc
    · cases h
      exact .exit hph hc.1 hc.2
    · cases h
      exact .stay hph fun hclosed hset => hc ⟨hclosed, hset⟩
  case parking =>
    cases h
    exact .park hph
  case sending =>
    cases h
    exact .send hph
  case releasing =>
    cases h
    exact .release hph
  case settling =>
    split_ifs at h with hfree
    cases h
    exact .settle hph hfree
  case announcing =>
    split_ifs at h with hc
    · cases h
      exact .announce hph hc
    · cases h
      exact .goOn hph (by simpa using hc)
  case broadcasting =>
    cases h
    exact .broadcast hph
  case exiting =>
    cases h
    exact .leave hph
  all_goals cases h

/-- Each step of a thread is one of those of its relation. -/
theorem threadStep_of_step {e : ExecutorEvent} (he : e.thread = some w) (h : s.step e = some s') :
    w < s.threads ∧ ThreadStep s w s' := by
  cases e <;> cases he <;> simp only [step] at h
  case work =>
    split_ifs at h with hw
    exact ⟨hw, threadStep_of_workerStep h⟩
  case execute result =>
    split at h
    · next id item hph =>
      split_ifs at h with hw
      cases h
      exact ⟨hw, .execute _ hph⟩
    · cases h

/-- The thread changes what it has by what its phases say. -/
theorem busyCount_move (hw : w < s.threads) {ph : WriterPhase} (hthreads : s'.threads = s.threads)
    (hworker : s'.worker = Function.update s.worker w ph) (id : ℕ) :
    s'.busyCount id + (if (s.worker w).busyWith = some id then 1 else 0)
      = s.busyCount id + (if ph.busyWith = some id then 1 else 0) := by
  rw [busyCount, hthreads, hworker]
  exact tally_update hw (fun ph : WriterPhase => if ph.busyWith = some id then 1 else 0) s.worker ph

theorem busyCount_eq (hw : w < s.threads) {ph : WriterPhase} (hthreads : s'.threads = s.threads)
    (hworker : s'.worker = Function.update s.worker w ph)
    (hbusy : ph.busyWith = (s.worker w).busyWith) (id : ℕ) : s'.busyCount id = s.busyCount id := by
  have h := busyCount_move hw hthreads hworker id
  rw [hbusy] at h
  exact Nat.add_right_cancel h

/-- The conditions under which a thread may move to phase `ph`. -/
structure Moves (s s' : WriteExecutor) (w : ℕ) (ph : WriterPhase) : Prop where
  worker : s'.worker = Function.update s.worker w ph
  threads : s'.threads = s.threads
  next : s'.nextSessionId = s.nextSessionId
  flags : s'.closed = s.closed ∧ s'.shutdowns = s.shutdowns
  ne_absent : ph ≠ .absent
  lock : s'.lock = if ph.holdsLock = (s.worker w).holdsLock then s.lock
    else if ph.holdsLock then some w else none
  free : ph.holdsLock = true → (s.worker w).holdsLock = false → s.lock = none
  ids : s'.sessions.map SessionEntry.id = s.sessions.map SessionEntry.id
  /-- The registry changes under the mutex. -/
  locked : s'.sessions = s.sessions ∨ s.lock = none ∨ s.lock = some w
  /-- A thread stops being busy under the mutex. -/
  busy : (s.worker w).isBusy = true → ph.isBusy = true ∨ s.lock = some w

/-- A thread moves on, and the table stays in step with it. -/
theorem ExecutorInv.moves (hi : ExecutorInv s) (hw : w < s.threads) (ph : WriterPhase)
    (hm : Moves s s' w ph) (hbusy : ∀ e ∈ s'.sessions, e.executing ≤ s'.busyCount e.id)
    (hdrained : ph.sawDrained = true → ∀ e ∈ s'.sessions, e.queue = [])
    (hwaits : ph = .parking true → ∃ w', w' ≠ w ∧ (s.worker w').isBusy = true) :
    ExecutorInv s' := by
  have hother : ∀ w', w' ≠ w → s'.worker w' = s.worker w' := fun w' hne => by
    rw [hm.worker, Function.update_of_ne hne]
  have hself : s'.worker w = ph := by rw [hm.worker, Function.update_self]
  -- while another thread holds the mutex this one stays out of it
  have hlock : ∀ w', w' ≠ w → s.lock = some w' → (s.worker w).holdsLock = false := by
    intro w' hne hl
    by_contra hh
    have hw' := (hi.lock w).mp (by simpa using hh)
    rw [hl] at hw'
    exact hne (Option.some.inj hw')
  refine ⟨fun w' => ?_, fun w' => ?_, ?_, fun e he => ?_, hbusy, fun w' hw' e he => ?_,
    fun w' hw' => ?_, fun j hj => ?_⟩
  · by_cases hne : w' = w
    · subst hne
      rw [hself, hm.lock]
      have hold := hi.lock w'
      by_cases heq : ph.holdsLock = (s.worker w').holdsLock
      · rw [if_pos heq, heq]
        exact hold
      · rw [if_neg heq]
        by_cases hh : ph.holdsLock = true
        · rw [hh, if_pos rfl]
          exact ⟨fun _ => rfl, fun _ => rfl⟩
        · rw [if_neg hh]
          exact ⟨fun h => absurd h hh, fun h => by cases h⟩
    · rw [hother w' hne, hi.lock w', hm.lock]
      by_cases heq : ph.holdsLock = (s.worker w).holdsLock
      · rw [if_pos heq]
      · rw [if_neg heq]
        have hcase : s.lock = some w' → False := by
          intro hl
          have hno := hlock w' hne hl
          have hyes : ph.holdsLock = true := by
            rw [hno] at heq
            simpa using heq
          rw [hm.free hyes hno] at hl
          cases hl
        refine ⟨fun hl => (hcase hl).elim, fun hl => ?_⟩
        split_ifs at hl
        exact absurd (Option.some.inj hl) (fun h => hne h.symm)
  · rw [hm.threads]
    by_cases hne : w' = w
    · subst hne
      rw [hself]
      exact ⟨fun h => absurd h hm.ne_absent, fun h => absurd hw (not_lt.mpr h)⟩
    · rw [hother w' hne]
      exact hi.absent w'
  · rw [hm.ids]
    exact hi.nodup
  · rw [hm.next]
    have hid : e.id ∈ s.sessions.map SessionEntry.id := by
      rw [← hm.ids]
      exact List.mem_map_of_mem he
    obtain ⟨e', he', heq⟩ := List.mem_map.mp hid
    rw [← heq]
    exact hi.lt_next e' he'
  · by_cases hne : w' = w
    · subst hne
      rw [hself] at hw'
      exact hdrained hw' e he
    · rw [hother w' hne] at hw'
      have hl := (hi.lock w').mp (WriterPhase.holdsLock_of_sawDrained hw')
      rcases hm.locked with hsame | hfree | hmine
      · exact hi.drained w' hw' e (hsame ▸ he)
      · rw [hfree] at hl
        cases hl
      · rw [hmine] at hl
        exact absurd (Option.some.inj hl) (fun h => hne h.symm)
  · by_cases hne : w' = w
    · subst hne
      rw [hself] at hw'
      obtain ⟨w'', hne', hb⟩ := hwaits hw'
      exact ⟨w'', by rw [hother w'' hne']; exact hb⟩
    · rw [hother w' hne] at hw'
      have hl := (hi.lock w').mp (by rw [hw']; rfl)
      obtain ⟨w'', hb⟩ := hi.waits w' hw'
      by_cases hne' : w'' = w
      · subst hne'
        refine ⟨w'', ?_⟩
        rw [hself]
        rcases hm.busy hb with hph | hmine
        · exact hph
        · rw [hmine] at hl
          exact absurd (Option.some.inj hl) (fun h => hne h.symm)
      · exact ⟨w'', by rw [hother w'' hne']; exact hb⟩
  · rw [hm.flags.1]
    exact hi.flag j (hm.flags.2 ▸ hj)

/-- The thread moves on and the registry stays. -/
theorem ExecutorInv.moves_same (hi : ExecutorInv s) (hw : w < s.threads) (ph : WriterPhase)
    (hm : Moves s s' w ph) (hsame : s'.sessions = s.sessions)
    (hbusy : ph.busyWith = (s.worker w).busyWith)
    (hdrained : ph.sawDrained = true → ∀ e ∈ s.sessions, e.queue = [])
    (hwaits : ph = .parking true → ∃ w', w' ≠ w ∧ (s.worker w').isBusy = true) :
    ExecutorInv s' := by
  refine hi.moves hw ph hm (fun e he => ?_) (fun h => hsame ▸ hdrained h) hwaits
  rw [busyCount_eq hw hm.threads hm.worker hbusy]
  exact hi.busy e (hsame ▸ he)

/-- The session counted down is one entry of the table, or none. -/
theorem countDown_cases (s : WriteExecutor) (id : ℕ) :
    (s.countDown id = s ∧ ∀ e ∈ s.sessions, e.id ≠ id) ∨
      ∃ index e, s.sessions[index]? = some e ∧ e.id = id ∧
        s.countDown id = s.setSession index { e with executing := e.executing - 1 } := by
  rw [countDown]
  split
  · next hnone => exact .inl ⟨rfl, sessionIndex_none hnone⟩
  · next index hindex =>
    obtain ⟨e, he, hid⟩ := sessionIndex_some hindex
    refine .inr ⟨index, e, he, hid, ?_⟩
    rw [he]

/-- An entry is the one at its place: identities are unique. -/
theorem ExecutorInv.mem_set (hi : ExecutorInv s) {index : ℕ} {e e' x : SessionEntry}
    (he : s.sessions[index]? = some e) (hx : x ∈ s.sessions.set index e') :
    x = e' ∨ x ∈ s.sessions ∧ x.id ≠ e.id := by
  obtain ⟨i, hi', hxi⟩ := List.getElem_of_mem hx
  by_cases heq : index = i
  · subst heq
    rw [List.getElem_set_self] at hxi
    exact .inl hxi.symm
  · rw [List.getElem_set_ne heq] at hxi
    have hlt : i < s.sessions.length := by simpa using hi'
    obtain ⟨hlt', hei⟩ := List.getElem?_eq_some_iff.mp he
    refine .inr ⟨hxi ▸ List.getElem_mem hlt, fun hsame => heq ?_⟩
    have hnd := List.nodup_iff_injective_getElem.mp hi.nodup
    have hfin : (⟨index, by simpa using hlt'⟩ : Fin (s.sessions.map SessionEntry.id).length)
        = ⟨i, by simpa using hlt⟩ := by
      apply hnd
      simp only [List.getElem_map]
      rw [hei, hxi, hsame]
    exact congrArg Fin.val hfin

theorem ExecutorInv.notifyAll (hi : ExecutorInv s) : ExecutorInv s.notifyAll :=
  hi.quiet (.of_woken hi rfl (notifyAll_woken s) rfl id rfl rfl (fun _ => .inl) .inl)

/-- **A thread takes a write**, and counts itself in. -/
theorem ExecutorInv.take (hi : ExecutorInv s) (hw : w < s.threads) {index : ℕ} {e : SessionEntry}
    {item : QueuedWrite} {rest : List QueuedWrite} (h : s.worker w = .scanning)
    (he : s.sessions[index]? = some e)
    (hworker : s'.worker = Function.update s.worker w (.executing e.id item))
    (hsessions : s'.sessions =
      s.sessions.set index { e with queue := rest, executing := e.executing + 1 })
    (hlock : s'.lock = none) (hthreads : s'.threads = s.threads)
    (hnext : s'.nextSessionId = s.nextSessionId)
    (hflags : s'.closed = s.closed ∧ s'.shutdowns = s.shutdowns) : ExecutorInv s' := by
  have hmine : s.lock = some w := (hi.lock w).mp (by rw [h]; rfl)
  have hm : Moves s s' w (.executing e.id item) := by
    refine ⟨hworker, hthreads, hnext, hflags, ?_, ?_, ?_, ?_, .inr (.inr hmine), fun _ => .inl rfl⟩
    · intro hno
      cases hno
    · rw [h, hlock]
      rfl
    · intro hno
      cases hno
    · rw [hsessions]
      exact map_id_set he rfl
  refine hi.moves hw _ hm (fun x hx => ?_) (fun hno => ?_) (fun hno => ?_)
  · rw [hsessions] at hx
    rcases hi.mem_set he hx with rfl | ⟨hin, hne⟩
    · have hcount := busyCount_move hw hthreads hworker e.id
      have hold := hi.busy e (List.mem_of_getElem? he)
      rw [h, if_neg (by intro hno; cases hno),
        if_pos (show (WriterPhase.executing e.id item).busyWith = some e.id from rfl)] at hcount
      show e.executing + 1 ≤ s'.busyCount e.id
      omega
    · have hcount := busyCount_move hw hthreads hworker x.id
      have hold := hi.busy x hin
      rw [h, if_neg (by intro hno; cases hno)] at hcount
      omega
  · cases hno
  · cases hno

/-- **A thread settles its write**, and counts itself out. -/
theorem ExecutorInv.settle (hi : ExecutorInv s) (hw : w < s.threads) {id : ℕ}
    (h : s.worker w = .settling id) (hfree : s.lock = none) :
    ExecutorInv (((s.countDown id).setWorker w .announcing).setLock (some w)) := by
  -- whether the session is still there or not, its count goes down with the thread
  have hmove : ∀ {s' : WriteExecutor}, Moves s s' w .announcing →
      (∀ x ∈ s'.sessions, (x.id ≠ id → x.executing ≤ s.busyCount x.id) ∧
        (x.id = id → x.executing ≤ s.busyCount x.id - 1)) → ExecutorInv s' := by
    intro s' hm hsessions
    refine hi.moves hw _ hm (fun x hx => ?_) (fun hno => ?_) (fun hno => ?_)
    · have hcount := busyCount_move hw hm.threads hm.worker x.id
      rw [h] at hcount
      by_cases hid : x.id = id
      · have hle := (hsessions x hx).2 hid
        rw [if_pos (by rw [hid]; rfl), if_neg (by intro hno; cases hno)] at hcount
        omega
      · have hle := (hsessions x hx).1 hid
        rw [if_neg (by intro hno; exact hid (Option.some.inj hno).symm),
          if_neg (by intro hno; cases hno)] at hcount
        omega
    · cases hno
    · cases hno
  have hlock : some w = if WriterPhase.announcing.holdsLock = (s.worker w).holdsLock then s.lock
      else if WriterPhase.announcing.holdsLock then some w else none := by
    rw [h]
    rfl
  rcases countDown_cases s id with ⟨heq, hnone⟩ | ⟨index, e, he, rfl, heq⟩
  · rw [heq]
    refine hmove ⟨rfl, rfl, rfl, ⟨rfl, rfl⟩, ?_, hlock, fun _ _ => hfree, rfl, .inl rfl,
      fun _ => .inl rfl⟩ fun x hx => ⟨fun _ => hi.busy x hx, fun hid => ?_⟩
    · intro hno
      cases hno
    · exact absurd hid (hnone x hx)
  · rw [heq]
    refine hmove ⟨rfl, rfl, rfl, ⟨rfl, rfl⟩, ?_, hlock, fun _ _ => hfree, map_id_set he rfl,
      .inr (.inl hfree), fun _ => .inl rfl⟩ fun x hx => ?_
    · intro hno
      cases hno
    · rcases hi.mem_set he hx with rfl | ⟨hin, hne⟩
      · have hold := hi.busy e (List.mem_of_getElem? he)
        refine ⟨fun hno => absurd rfl hno, fun _ => ?_⟩
        show e.executing - 1 ≤ s.busyCount e.id - 1
        omega
      · exact ⟨fun _ => hi.busy x hin, fun hid => absurd hid hne⟩

/-- Nothing queued and not settled: some thread is at work. -/
theorem ExecutorInv.exists_busy (hi : ExecutorInv s) (h : s.worker w = .checking)
    (hset : ¬ s.Settled) : ∃ w', w' ≠ w ∧ (s.worker w').isBusy = true := by
  have hdrained := hi.drained w (by rw [h]; rfl)
  simp only [Settled, not_forall] at hset
  obtain ⟨e, he, hno⟩ := hset
  have hpos : 0 < s.busyCount e.id := by
    have hle := hi.busy e he
    have hexec : e.executing ≠ 0 := fun hzero => hno ⟨hdrained e he, hzero⟩
    omega
  obtain ⟨w', -, hw'⟩ := exists_of_tally_pos hpos
  have hwith : (s.worker w').busyWith = some e.id := by
    by_contra hne
    rw [if_neg hne] at hw'
    exact absurd hw' (lt_irrefl 0)
  refine ⟨w', ?_, WriterPhase.isBusy_of_busyWith hwith⟩
  rintro rfl
  rw [h] at hwith
  cases hwith

/-- The steps of the threads, one by one. -/
theorem ExecutorInv.thread (hi : ExecutorInv s) (hw : w < s.threads) (h : ThreadStep s w s') :
    ExecutorInv s' := by
  have hmine : ∀ {ph : WriterPhase}, s.worker w = ph → ph.holdsLock = true → s.lock = some w :=
    fun hph hh => (hi.lock w).mp (by rw [hph]; exact hh)
  cases h with
  | enter h hfree =>
    refine hi.moves_same hw .scanning ⟨rfl, rfl, rfl, ⟨rfl, rfl⟩, nofun, ?_, fun _ _ => hfree, rfl,
      .inl rfl, ?_⟩ rfl ?_ nofun nofun
    · rcases h with h | h <;> rw [h] <;> rfl
    · rcases h with h | h <;> rw [h] <;> nofun
    · rcases h with h | h <;> rw [h] <;> rfl
  | take h he hq => exact hi.take hw h he rfl rfl rfl rfl rfl ⟨rfl, rfl⟩
  | noWork h hq =>
    refine hi.moves_same hw .checking ⟨rfl, rfl, rfl, ⟨rfl, rfl⟩, nofun, ?_, ?_, rfl, .inl rfl, ?_⟩
      rfl (by rw [h]; rfl) (fun _ => hq) nofun
    · rw [h]
      rfl
    · rw [h]
      nofun
    · rw [h]
      nofun
  | exit h hclosed hset =>
    refine hi.moves_same hw .exiting ⟨rfl, rfl, rfl, ⟨rfl, rfl⟩, nofun, ?_, nofun, rfl, .inl rfl, ?_⟩
      rfl (by rw [h]; rfl) nofun nofun
    · rw [h]
      rfl
    · rw [h]
      nofun
  | stay h hset =>
    refine hi.moves_same hw (.parking s.closed) ⟨rfl, rfl, rfl, ⟨rfl, rfl⟩, nofun, ?_, ?_, rfl,
      .inl rfl, ?_⟩ rfl (by rw [h]; rfl) (fun _ => hi.drained w (by rw [h]; rfl)) fun hp => ?_
    · rw [h]
      rfl
    · rw [h]
      nofun
    · rw [h]
      nofun
    · exact hi.exists_busy h (hset (WriterPhase.parking.inj hp))
  | park h =>
    refine hi.moves_same hw .parked ⟨rfl, rfl, rfl, ⟨rfl, rfl⟩, nofun, ?_, nofun, rfl, .inl rfl, ?_⟩
      rfl (by rw [h]; rfl) nofun nofun
    · rw [h]
      rfl
    · rw [h]
      nofun
  | execute outcome h =>
    refine hi.moves_same hw _ ⟨rfl, rfl, rfl, ⟨rfl, rfl⟩, nofun, ?_, nofun, rfl, .inl rfl,
      fun _ => .inl rfl⟩ rfl (by rw [h]; rfl) nofun nofun
    rw [h]
    rfl
  | send h =>
    refine hi.moves_same hw _ ⟨rfl, rfl, rfl, ⟨rfl, rfl⟩, nofun, ?_, nofun, rfl, .inl rfl,
      fun _ => .inl rfl⟩ rfl (by rw [h]; rfl) nofun nofun
    rw [h]
    rfl
  | release h =>
    refine hi.moves_same hw _ ⟨rfl, rfl, rfl, ⟨rfl, rfl⟩, nofun, ?_, nofun, rfl, .inl rfl,
      fun _ => .inl rfl⟩ rfl (by rw [h]; rfl) nofun nofun
    rw [h]
    rfl
  | settle h hfree => exact hi.settle hw h hfree
  | announce h hclosed =>
    refine hi.moves_same hw .broadcasting ⟨rfl, rfl, rfl, ⟨rfl, rfl⟩, nofun, ?_, ?_, rfl, .inl rfl,
      fun _ => .inl rfl⟩ rfl (by rw [h]; rfl) nofun nofun
    · rw [h]
      rfl
    · rw [h]
      nofun
  | goOn h hclosed =>
    refine hi.moves_same hw .entering ⟨rfl, rfl, rfl, ⟨rfl, rfl⟩, nofun, ?_, nofun, rfl, .inl rfl,
      fun _ => .inr (hmine h rfl)⟩ rfl (by rw [h]; rfl) nofun nofun
    rw [h]
    rfl
  | broadcast h =>
    have h' : s.notifyAll.worker w = .broadcasting := by
      show (if s.worker w = .parked then WriterPhase.waking else s.worker w) = _
      rw [h]
      rfl
    refine hi.notifyAll.moves_same hw .entering ⟨rfl, rfl, rfl, ⟨rfl, rfl⟩, nofun, ?_, nofun, rfl,
      .inl rfl, fun _ => .inr (hmine h rfl)⟩ rfl (by rw [h']; rfl) nofun nofun
    rw [h']
    rfl
  | leave h =>
    refine hi.moves_same hw .gone ⟨rfl, rfl, rfl, ⟨rfl, rfl⟩, nofun, ?_, nofun, rfl, .inl rfl, ?_⟩
      rfl (by rw [h]; rfl) nofun nofun
    · rw [h]
      rfl
    · rw [h]
      nofun

/-- **The mutex, the threads and the table go on fitting together.** -/
theorem ExecutorInv.step (hi : ExecutorInv s) {e : ExecutorEvent} (h : s.step e = some s') :
    ExecutorInv s' := by
  rcases he : e.thread with - | w
  · exact hi.quiet (quiet_of_step hi he h)
  · obtain ⟨hw, hstep⟩ := threadStep_of_step he h
    exact hi.thread hw hstep

end WriteExecutor

end KDown
