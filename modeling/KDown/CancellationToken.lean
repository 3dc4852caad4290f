/-
KDown/CancellationToken.lean

The cancellation token (control/cancellation.rs): three flags, a versioned
signal, publishers and waiting tasks.

A publisher stores a flag and then sends; the value sent is not the value
tested.  A waiting task subscribes, marks the current version seen, loads the
flags and then waits for a version it has not seen.  Each of these accesses is
a step of its own.  The waiting task borrows the token, which owns the sending
end, so the wait never ends because the sender is gone.  A send without any
receiver does nothing in the source; counting the version up all the same
makes no difference, since a new receiver starts from the current one.

While a task is past its mark, every flag it has found lowered is still
lowered, or a newer version is waiting for it, or a publisher is about to
send (`TokenInv`).  Hence no task sleeps through its condition
(`no_lost_wakeup`).
-/
import KDown.HttpBody
import KDown.WatchSignal
import Mathlib.Data.Nat.Notation

namespace KDown

/-- The calls that wait. -/
inductive TokenWait
  | cancelled
  | cancelledOrPaused
  | waitForResume
  deriving DecidableEq, Repr

/-- Why a wait ended. -/
inductive CancellationReason
  | cancelled
  | paused
  deriving DecidableEq, Repr

/-- What a wait returned. -/
inductive TokenOutcome
  /-- `cancelled` returned. -/
  | done
  | reason (reason : CancellationReason)
  /-- `wait_for_resume` returned. -/
  | resumed (lifted : Bool)
  deriving DecidableEq, Repr

/-- Where a waiting task stands. -/
inductive TokenTask
  | idle
  | subscribing (wait : TokenWait)
  /-- At the top of its loop, about to mark the version seen. -/
  | marking (wait : TokenWait)
  | checkingCancelled (wait : TokenWait)
  | checkingPaused (wait : TokenWait)
  /-- About to await a change. -/
  | waiting (wait : TokenWait)
  | parked (wait : TokenWait)
  | returned (outcome : TokenOutcome)
  deriving DecidableEq, Repr

/-- The calls that publish. -/
inductive TokenCall
  | cancel
  | cancelWithDeadline
  | pause
  | unpause
  deriving DecidableEq, Repr

/-- Where a call that changes the token stands. -/
inductive TokenPublisher
  | idle
  /-- `cancel_with_deadline` before it goes on as `cancel`. -/
  | storingDeadline
  | storingCancelled
  | storingPaused (value : Bool)
  /-- Between the flag and the signal. -/
  | sending
  deriving DecidableEq, Repr

/-- The first access of a call. -/
def TokenCall.begin : TokenCall → TokenPublisher
  | .cancel => .storingCancelled
  | .cancelWithDeadline => .storingDeadline
  | .pause => .storingPaused true
  | .unpause => .storingPaused false

/-- A call or a wait begins, goes on, or is dropped. -/
inductive TokenEvent
  | call (p : ℕ) (op : TokenCall)
  /-- The next step of a publisher. -/
  | publish (p : ℕ)
  | wait (i : ℕ) (op : TokenWait)
  /-- The next step of a task, or its wake. -/
  | poll (i : ℕ)
  /-- A waiting task's future is dropped. -/
  | dropWait (i : ℕ)
  deriving DecidableEq, Repr

/-- The flags, the signal, and who is at work on them. -/
structure TokenState where
  token : CancellationToken
  signal : Watch ℕ
  publishers : ℕ → TokenPublisher
  tasks : ℕ → TokenTask

/-- What the wait waits for. -/
def TokenWait.condition (w : TokenWait) (cancelled paused : Bool) : Bool :=
  match w with
  | .cancelled => cancelled
  | .cancelledOrPaused => cancelled || paused
  | .waitForResume => cancelled || !paused

namespace TokenState

variable {s s' : TokenState}

/-- A token that nobody has used. -/
def new : TokenState where
  token := .new
  signal := .new
  publishers := fun _ => .idle
  tasks := fun _ => .idle

/-- The task moves on. -/
def setTask (s : TokenState) (i : ℕ) (t : TokenTask) : TokenState :=
  { s with tasks := Function.update s.tasks i t }

/-- The publisher moves on. -/
def setPublisher (s : TokenState) (p : ℕ) (ph : TokenPublisher) : TokenState :=
  { s with publishers := Function.update s.publishers p ph }

/-- The next step of a call. -/
def publisherStep (s : TokenState) (p : ℕ) : TokenPublisher → Option TokenState
  | .idle => none
  | .storingDeadline =>
      some { s.setPublisher p .storingCancelled with token := { s.token with deadline := true } }
  | .storingCancelled => some { s.setPublisher p .sending with token := s.token.cancel }
  | .storingPaused value =>
      some { s.setPublisher p .sending with token := { s.token with paused := value } }
  | .sending => some { s.setPublisher p .idle with signal := s.signal.send }

/-- What a task does once it knows the cancelled flag. -/
def afterCancelled (cancelled : Bool) : TokenWait → TokenTask
  | .cancelled => if cancelled then .returned .done else .waiting .cancelled
  | .cancelledOrPaused =>
      if cancelled then .returned (.reason .cancelled) else .checkingPaused .cancelledOrPaused
  | .waitForResume => if cancelled then .returned (.resumed false) else .checkingPaused .waitForResume

/-- What a task does once it knows the paused flag. -/
def afterPaused (paused : Bool) : TokenWait → TokenTask
  | .cancelled => .waiting .cancelled
  | .cancelledOrPaused => if paused then .returned (.reason .paused) else .waiting .cancelledOrPaused
  | .waitForResume => if paused then .waiting .waitForResume else .returned (.resumed true)

/-- A task marks the current version seen and goes to `t`. -/
def mark (s : TokenState) (i : ℕ) (t : TokenTask) : TokenState :=
  { s.setTask i t with signal := s.signal.markSeen i }

/-- The next step of a waiting task. -/
def taskStep (s : TokenState) (i : ℕ) : TokenTask → Option TokenState
  | .idle => none
  -- a new receiver has seen the current version
  | .subscribing w => some (s.mark i (.marking w))
  | .marking w => some (s.mark i (.checkingCancelled w))
  | .checkingCancelled w => some (s.setTask i (afterCancelled s.token.cancelled w))
  | .checkingPaused w => some (s.setTask i (afterPaused s.token.paused w))
  -- `changed` marks what it returns for
  | .waiting w =>
      if s.signal.changed i then some (s.mark i (.marking w)) else some (s.setTask i (.parked w))
  | .parked w => if s.signal.changed i then some (s.mark i (.marking w)) else none
  | .returned _ => none

/-- One event. -/
def step (s : TokenState) : TokenEvent → Option TokenState
  | .call p op => if s.publishers p = .idle then some (s.setPublisher p op.begin) else none
  | .publish p => s.publisherStep p (s.publishers p)
  | .wait i op => if s.tasks i = .idle then some (s.setTask i (.subscribing op)) else none
  | .poll i => s.taskStep i (s.tasks i)
  | .dropWait i => some (s.setTask i .idle)

/-! ### No task sleeps through its condition -/

/-- A version the task has not seen is there, or about to be sent. -/
def Coming (s : TokenState) (i : ℕ) : Prop :=
  s.signal.changed i = true ∨ ∃ p, s.publishers p = .sending

/-- A task that could go on is about to see it. -/
structure TokenInv (s : TokenState) : Prop where
  checked : ∀ i w, s.tasks i = .checkingPaused w → s.token.cancelled = true → s.Coming i
  ready : ∀ i w, s.tasks i = .waiting w ∨ s.tasks i = .parked w →
    w.condition s.token.cancelled s.token.paused = true → s.Coming i

theorem TokenInv.new : TokenInv new where
  checked := fun _ _ h => by cases h
  ready := fun _ _ h => by rcases h with h | h <;> cases h

/-- Something is coming for every task. -/
theorem TokenInv.of_coming (h : ∀ i, s.Coming i) : TokenInv s where
  checked := fun i _ _ _ => h i
  ready := fun i _ _ _ => h i

/-- A publisher moves on before its flag. -/
theorem TokenInv.publisher (hi : TokenInv s) {p : ℕ} {ph : TokenPublisher}
    (hp : s.publishers p ≠ .sending) (hpub : s'.publishers = Function.update s.publishers p ph)
    (hcancelled : s'.token.cancelled = s.token.cancelled) (hpaused : s'.token.paused = s.token.paused)
    (hsignal : s'.signal = s.signal) (htasks : s'.tasks = s.tasks) : TokenInv s' := by
  have hcoming : ∀ i, s.Coming i → s'.Coming i := by
    intro i hc
    rcases hc with hchanged | ⟨q, hq⟩
    · refine .inl ?_
      rw [hsignal]
      exact hchanged
    · refine .inr ⟨q, ?_⟩
      rw [hpub, Function.update_of_ne]
      · exact hq
      · rintro rfl
        exact hp hq
  refine ⟨fun i w h hc => hcoming i ?_, fun i w h hc => hcoming i ?_⟩
  · rw [htasks] at h
    rw [hcancelled] at hc
    exact hi.checked i w h hc
  · rw [htasks] at h
    rw [hcancelled, hpaused] at hc
    exact hi.ready i w h hc

/-- Task `i` moves on. -/
theorem TokenInv.task (hi : TokenInv s) {i : ℕ} {t : TokenTask}
    (htasks : s'.tasks = Function.update s.tasks i t) (hpub : s'.publishers = s.publishers)
    (hcancelled : s'.token.cancelled = s.token.cancelled) (hpaused : s'.token.paused = s.token.paused)
    (hsignal : s'.signal = s.signal ∨ s'.signal = s.signal.markSeen i)
    (hchecked : ∀ w, t = .checkingPaused w → s.token.cancelled = true → s'.Coming i)
    (hready : ∀ w, t = .waiting w ∨ t = .parked w →
      w.condition s.token.cancelled s.token.paused = true → s'.Coming i) : TokenInv s' := by
  -- the other tasks lose no notification
  have hcoming : ∀ j, j ≠ i → s.Coming j → s'.Coming j := by
    intro j hne hc
    rcases hc with hchanged | ⟨q, hq⟩
    · refine .inl ?_
      rcases hsignal with hsame | hmark
      · rw [hsame]
        exact hchanged
      · rw [hmark, Watch.changed_markSeen_of_ne _ hne]
        exact hchanged
    · exact .inr ⟨q, by rw [hpub]; exact hq⟩
  refine ⟨fun j w h hc => ?_, fun j w h hc => ?_⟩
  · rw [hcancelled] at hc
    rw [htasks] at h
    by_cases hji : j = i
    · subst hji
      rw [Function.update_self] at h
      exact hchecked w h hc
    · rw [Function.update_of_ne hji] at h
      exact hcoming j hji (hi.checked j w h hc)
  · rw [hcancelled, hpaused] at hc
    rw [htasks] at h
    by_cases hji : j = i
    · subst hji
      rw [Function.update_self] at h
      exact hready w h hc
    · rw [Function.update_of_ne hji] at h
      exact hcoming j hji (hi.ready j w h hc)

/-- A task that is not past its mark has nothing to wait for. -/
theorem TokenInv.task_early (hi : TokenInv s) {i : ℕ} {t : TokenTask}
    (htasks : s'.tasks = Function.update s.tasks i t) (hpub : s'.publishers = s.publishers)
    (hcancelled : s'.token.cancelled = s.token.cancelled) (hpaused : s'.token.paused = s.token.paused)
    (hsignal : s'.signal = s.signal ∨ s'.signal = s.signal.markSeen i)
    (hchecked : ∀ w, t ≠ .checkingPaused w) (hwaiting : ∀ w, t ≠ .waiting w)
    (hparked : ∀ w, t ≠ .parked w) : TokenInv s' :=
  hi.task htasks hpub hcancelled hpaused hsignal (fun w h => absurd h (hchecked w)) fun w h =>
    h.elim (fun h => absurd h (hwaiting w)) fun h => absurd h (hparked w)

theorem TokenInv.publisherStep (hi : TokenInv s) {p : ℕ}
    (h : s.publisherStep p (s.publishers p) = some s') : TokenInv s' := by
  rcases hph : s.publishers p with - | - | - | value | - <;> rw [hph] at h <;> cases h
  · refine hi.publisher (p := p) ?_ rfl rfl rfl rfl rfl
    rw [hph]
    intro hno
    cases hno
  · exact .of_coming fun _ => .inr ⟨p, Function.update_self ..⟩
  · exact .of_coming fun _ => .inr ⟨p, Function.update_self ..⟩
  · exact .of_coming fun i => .inl (Watch.changed_send s.signal i)

theorem TokenInv.afterCancelled (hi : TokenInv s) (i : ℕ) (w : TokenWait) :
    TokenInv (s.setTask i (afterCancelled s.token.cancelled w)) := by
  refine hi.task rfl rfl rfl rfl (.inl rfl) (fun v hv hc => ?_) (fun v hv hc => ?_)
  · -- the flag was just found lowered
    rw [hc] at hv
    cases w <;> cases hv
  · cases w <;> rcases hcan : s.token.cancelled with - | - <;> rw [hcan] at hv hc <;>
      rcases hv with hv | hv <;> cases hv
    cases hc

theorem TokenInv.afterPaused (hi : TokenInv s) {i : ℕ} {w : TokenWait}
    (h : s.tasks i = .checkingPaused w) : TokenInv (s.setTask i (afterPaused s.token.paused w)) := by
  refine hi.task rfl rfl rfl rfl (.inl rfl) (fun v hv _ => ?_) (fun v hv hc => ?_)
  · cases w <;> rcases hpau : s.token.paused with - | - <;> rw [hpau] at hv <;> cases hv
  · -- what is left of the condition is the cancelled flag
    have hcan : s.token.cancelled = true := by
      cases w <;> rcases hpau : s.token.paused with - | - <;> rw [hpau] at hv hc <;>
        rcases hv with hv | hv <;> cases hv <;> simpa [TokenWait.condition] using hc
    exact hi.checked i w h hcan

/-- A task's step, by its phase. -/
theorem TokenInv.taskStep (hi : TokenInv s) {i : ℕ} (h : s.taskStep i (s.tasks i) = some s') :
    TokenInv s' := by
  rcases ht : s.tasks i with - | w | w | w | w | w | w | o <;> rw [ht] at h <;>
    simp only [TokenState.taskStep] at h
  · cases h
  · cases h
    exact hi.task_early rfl rfl rfl rfl (.inr rfl) (fun _ hno => by cases hno)
      (fun _ hno => by cases hno) (fun _ hno => by cases hno)
  · cases h
    exact hi.task_early rfl rfl rfl rfl (.inr rfl) (fun _ hno => by cases hno)
      (fun _ hno => by cases hno) (fun _ hno => by cases hno)
  · cases h
    exact hi.afterCancelled i w
  · cases h
    exact hi.afterPaused ht
  · split_ifs at h with hchanged <;> cases h
    · exact hi.task_early rfl rfl rfl rfl (.inr rfl) (fun _ hno => by cases hno)
        (fun _ hno => by cases hno) (fun _ hno => by cases hno)
    · refine hi.task rfl rfl rfl rfl (.inl rfl) (fun _ hno => by cases hno) fun v hv hc => ?_
      rcases hv with hv | hv <;> cases hv
      exact hi.ready i w (.inl ht) hc
  · split_ifs at h with hchanged
    cases h
    exact hi.task_early rfl rfl rfl rfl (.inr rfl) (fun _ hno => by cases hno)
      (fun _ hno => by cases hno) (fun _ hno => by cases hno)
  · cases h

/-- **No step leaves a task behind** that could go on and will not see it. -/
theorem TokenInv.step (hi : TokenInv s) {e : TokenEvent} (h : s.step e = some s') : TokenInv s' := by
  rcases e with ⟨p, op⟩ | p | ⟨i, op⟩ | i | i <;> simp only [TokenState.step] at h
  · split_ifs at h with hidle
    cases h
    refine hi.publisher (p := p) ?_ rfl rfl rfl rfl rfl
    rw [hidle]
    intro hno
    cases hno
  · exact hi.publisherStep h
  · split_ifs at h
    cases h
    exact hi.task_early rfl rfl rfl rfl (.inl rfl) (fun _ hno => by cases hno)
      (fun _ hno => by cases hno) (fun _ hno => by cases hno)
  · exact hi.taskStep h
  · cases h
    exact hi.task_early rfl rfl rfl rfl (.inl rfl) (fun _ hno => by cases hno)
      (fun _ hno => by cases hno) (fun _ hno => by cases hno)

/-! ### Cancellation stays -/

/-- Nothing lowers the cancelled flag. -/
theorem cancelled_of_step {e : TokenEvent} (h : s.step e = some s') (hc : s.token.cancelled = true) :
    s'.token.cancelled = true := by
  rcases e with ⟨p, op⟩ | p | ⟨i, op⟩ | i | i <;> simp only [TokenState.step] at h
  · split_ifs at h
    cases h
    exact hc
  · rcases hph : s.publishers p with - | - | - | value | - <;> rw [hph] at h <;> cases h <;>
      first | exact hc | rfl
  · split_ifs at h
    cases h
    exact hc
  · rcases ht : s.tasks i with - | w | w | w | w | w | w | o <;> rw [ht] at h <;>
      simp only [TokenState.taskStep] at h <;> try split_ifs at h
    all_goals cases h <;> exact hc
  · cases h
    exact hc

/-- A cancellation is never taken back. -/
theorem cancelled_of_run {es : List TokenEvent} (h : runEvents step s es = some s')
    (hc : s.token.cancelled = true) : s'.token.cancelled = true := by
  induction es generalizing s with
  | nil => exact Option.some.inj h ▸ hc
  | cons e es ih =>
    obtain ⟨t, ht, hrest⟩ := Option.bind_eq_some_iff.mp h
    exact ih hrest (cancelled_of_step ht hc)

/-- **No lost wakeup.**  A task that is parked although its condition holds
has an unseen version to wake it, or a publisher stands between its flag and
its send.  Cancellation, once visible, stays visible. -/
theorem no_lost_wakeup (h : Reach step (fun _ _ => True) (· = new) s) :
    (∀ i w, s.tasks i = .parked w → w.condition s.token.cancelled s.token.paused = true →
      s.signal.changed i = true ∨ ∃ p, s.publishers p = .sending) ∧
    ∀ es s', runEvents step s es = some s' → s.token.cancelled = true → s'.token.cancelled = true := by
  have hi : TokenInv s := h.invariant (fun _ hnew => hnew ▸ .new) fun _ _ _ hi _ hs => hi.step hs
  exact ⟨fun i w hparked hc => hi.ready i w (.inr hparked) hc, fun _ _ hrun hc =>
    cancelled_of_run hrun hc⟩

/-- A task parks in `cancelled_or_paused`, and the job is paused. -/
def pausedRun : List TokenEvent :=
  TokenEvent.wait 0 .cancelledOrPaused :: List.replicate 5 (.poll 0) ++
    [TokenEvent.call 0 .pause, .publish 0, .publish 0]

/-- The pause comes between the look at the flag and the wait, and the task
wakes. -/
theorem no_lost_wakeup_pausedRun :
    ∃ s, runEvents step new pausedRun = some s ∧ s.tasks 0 = .parked .cancelledOrPaused ∧
      s.token.paused = true ∧ (s.signal.changed 0 = true ∨ ∃ p, s.publishers p = .sending) := by
  have hrun : ∃ s ∈ runEvents step new pausedRun,
      s.tasks 0 = .parked .cancelledOrPaused ∧ s.token.paused = true := by decide
  obtain ⟨s, hs, hparked, hpaused⟩ := hrun
  refine ⟨s, hs, hparked, hpaused,
    (no_lost_wakeup (.of_run (.start rfl) runOk_true hs)).1 0 _ hparked ?_⟩
  rw [hpaused]
  exact Bool.or_true _

end TokenState

end KDown
