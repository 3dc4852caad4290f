/-
KDown/HttpBody.lean

Bounded body delivery (http/execution.rs) and the cancellation token
(control/cancellation.rs).

`next_chunk` is a future: each poll looks at the token's flags, polls the
source, and while the source has nothing arms a timer for the read-idle
deadline.  A task whose poll is pending runs again only after something it
registered with has fired, so a poll returns here what it registered with
(`Interest`), and the sequential reader around it (job/controller.rs) is a
state machine in which a parked task is polled only once it is woken.

A pending poll registers with the source and with the timer, and not with the
token.  `reader_interruptible_iff` says what follows: a run of the reader can
always be interrupted by a cancel or a pause exactly when no poll in it is
pending.  The wait for the end of a pause registers with the token and is
never slept through (`resuming_not_slept_through`).
-/
import KDown.Errors
import KDown.Runs

namespace KDown

/-! ### The token -/

/-- The flags shared between a handle and the tasks of its job. -/
structure CancellationToken where
  cancelled : Bool
  /-- The cancellation came from the job's deadline. -/
  deadline : Bool
  paused : Bool
  deriving DecidableEq, Repr

namespace CancellationToken

/-- A token that nobody has used. -/
def new : CancellationToken := ⟨false, false, false⟩

/-- `cancel`. -/
def cancel (t : CancellationToken) : CancellationToken := { t with cancelled := true }

/-- `cancel_with_deadline`. -/
def cancelWithDeadline (t : CancellationToken) : CancellationToken :=
  { t with deadline := true }.cancel

/-- `pause`. -/
def pause (t : CancellationToken) : CancellationToken := { t with paused := true }

/-- `unpause`. -/
def unpause (t : CancellationToken) : CancellationToken := { t with paused := false }

/-- No new reads should be issued now. -/
def shouldStop (t : CancellationToken) : Bool := t.cancelled || t.paused

end CancellationToken

/-! ### Polls -/

/-- What a task registers with, to be woken. -/
inductive Interest
  /-- The source has something to deliver. -/
  | source
  /-- The idle timer expires. -/
  | idle
  /-- The state of the token changes. -/
  | token
  deriving DecidableEq, Repr

/-- The result of a poll; a pending one names what it has registered with. -/
inductive Poll (α : Type*)
  | ready (value : α)
  | pending (wakers : List Interest)

/-- What the source of a body answers to a poll. -/
inductive SourcePoll
  | ready (result : Except DownloadError (Option (List UInt8)))
  | pending

/-- The source has nothing yet. -/
def SourcePoll.isPending : SourcePoll → Bool
  | .pending => true
  | .ready _ => false

/-- One awaited step of body delivery. -/
inductive BodyEvent
  | data (bytes : List UInt8)
  /-- Clean end of body. -/
  | eof
  /-- A pause was requested; the source is untouched. -/
  | paused

/-- The error of a body that delivers nothing for too long. -/
def readIdleError : DownloadError := .connection "read idle timeout"

/-- One poll step: cancellation and pause win against the source, and the idle
timer is armed only while the source is pending. -/
def pollStep (token : CancellationToken) (source : SourcePoll) (now deadline : ℕ) :
    Poll (Except DownloadError BodyEvent) :=
  if token.cancelled then .ready (.error .cancelled)
  else if token.paused then .ready (.ok .paused)
  else
    match source with
    | .ready (.ok (some data)) => .ready (.ok (.data data))
    | .ready (.ok none) => .ready (.ok .eof)
    | .ready (.error e) => .ready (.error e)
    | .pending =>
        if deadline ≤ now then .ready (.error readIdleError) else .pending [.source, .idle]

/-- A call of `next_chunk`: its idle deadline, fixed by its first poll. -/
structure ReadCall where
  deadline : Option ℕ
  deriving DecidableEq, Repr

namespace ReadCall

/-- A call that was not polled yet. -/
def new : ReadCall := ⟨none⟩

/-- The deadline that a poll of the call works with. -/
def deadlineAt (call : ReadCall) (timeout now : ℕ) : ℕ := call.deadline.getD (now + timeout)

/-- Poll a call of `next_chunk`. -/
def nextChunk (call : ReadCall) (timeout : ℕ) (token : CancellationToken) (source : SourcePoll)
    (now : ℕ) : Poll (Except DownloadError BodyEvent) × ReadCall :=
  (pollStep token source now (call.deadlineAt timeout now), ⟨some (call.deadlineAt timeout now)⟩)

end ReadCall

/-- A poll is pending exactly if the token is clear, the source has nothing and
the deadline lies ahead; and then the token is not registered with. -/
theorem pollStep_pending_iff {token : CancellationToken} {source : SourcePoll}
    {now deadline : ℕ} {wakers : List Interest} :
    pollStep token source now deadline = .pending wakers ↔
      (token.shouldStop = false ∧ source.isPending = true ∧ now < deadline) ∧
        wakers = [.source, .idle] := by
  unfold pollStep CancellationToken.shouldStop
  rcases token.cancelled with - | -
  swap
  · simp
  rcases token.paused with - | -
  swap
  · simp
  rcases source with ((e | - | data) | -)
  · simp [SourcePoll.isPending]
  · simp [SourcePoll.isPending]
  · simp [SourcePoll.isPending]
  · simp only [SourcePoll.isPending, Bool.false_eq_true, if_false]
    split_ifs with h
    · simp [Nat.not_lt_of_le h]
    · simp [Nat.lt_of_not_le h, eq_comm]

/-- Wait until the pause lifts (`true`) or the token is cancelled (`false`). -/
def CancellationToken.waitForResume (t : CancellationToken) : Poll Bool :=
  if t.cancelled then .ready false
  else if !t.paused then .ready true
  else .pending [.token]

/-! ### The sequential reader -/

/-- A parked task. -/
structure Sleep where
  wakers : List Interest
  /-- One of them has fired. -/
  woken : Bool
  deriving DecidableEq, Repr

namespace Sleep

/-- Park with what a pending poll registered with. -/
def park (wakers : List Interest) : Sleep := ⟨wakers, false⟩

/-- A source of wakes fires, and wakes a sleep that is interested. -/
def fire (s : Sleep) (i : Interest) : Sleep :=
  if i ∈ s.wakers then { s with woken := true } else s

@[simp] theorem fire_wakers (s : Sleep) (i : Interest) : (s.fire i).wakers = s.wakers := by
  unfold fire
  split_ifs <;> rfl

theorem fire_woken (s : Sleep) {i : Interest} (h : i ∈ s.wakers) : (s.fire i).woken = true := by
  simp [fire, h]

theorem fire_keeps (s : Sleep) (i : Interest) (h : s.woken = true) :
    (s.fire i).woken = true := by
  unfold fire
  split_ifs
  · rfl
  · exact h

end Sleep

/-- Where the reader stands in its loop over the chunks. -/
inductive ReaderPhase
  /-- Before the check for a cancellation. -/
  | top
  /-- In `next_chunk`, and running. -/
  | reading (call : ReadCall)
  /-- In `next_chunk`, after a pending poll. -/
  | parked (call : ReadCall) (sleep : Sleep)
  /-- `next_chunk` returned an event. -/
  | handling (event : BodyEvent)
  /-- Waiting for the end of a pause; parked after a pending poll. -/
  | resuming (sleep : Option Sleep)
  /-- The body is left. -/
  | ended

/-- A reader with its token, and the clock. -/
structure Reader where
  token : CancellationToken
  phase : ReaderPhase
  now : ℕ

/-- What can happen to the reader. -/
inductive ReaderEvent
  | check
  | poll (source : SourcePoll)
  /-- The event was handled; the loop goes on, or the job stops over it. -/
  | handled (goesOn : Bool)
  | pollResume
  | cancel
  | cancelWithDeadline
  | pause
  | unpause
  /-- The source gets something to deliver. -/
  | arrive
  | tick (n : ℕ)

namespace Reader

/-- A reader before its first poll. -/
def start : Reader := ⟨.new, .top, 0⟩

/-- Something happens that parked tasks may have registered with. -/
def fire (r : Reader) (i : Interest) : Reader :=
  match r.phase with
  | .parked call sleep => { r with phase := .parked call (sleep.fire i) }
  | .resuming (some sleep) => { r with phase := .resuming (some (sleep.fire i)) }
  | _ => r

/-- Publish a state of the token after a flag change. -/
def publishState (r : Reader) (token : CancellationToken) : Reader :=
  { r with token := token }.fire .token

/-- Time passes; the armed idle timer may expire. -/
def advance (r : Reader) (n : ℕ) : Reader :=
  let r := { r with now := r.now + n }
  match r.phase with
  | .parked ⟨some deadline⟩ _ => if deadline ≤ r.now then r.fire .idle else r
  | _ => r

/-- The call of `next_chunk` that runs now, or that was woken. -/
def runnable (r : Reader) : Option ReadCall :=
  match r.phase with
  | .reading call => some call
  | .parked call sleep => if sleep.woken then some call else none
  | _ => none

/-- The reader after a poll of `next_chunk`. -/
def afterPoll (r : Reader) : Poll (Except DownloadError BodyEvent) × ReadCall → Reader
  | (.pending wakers, call) => { r with phase := .parked call (.park wakers) }
  | (.ready (.ok event), _) => { r with phase := .handling event }
  | (.ready (.error _), _) => { r with phase := .ended }

end Reader

/-- One event of the sequential reader. -/
def readerStep (timeout : ℕ) (r : Reader) : ReaderEvent → Option Reader
  | .check =>
      match r.phase with
      | .top =>
          some { r with phase := if r.token.cancelled then .ended else .reading .new }
      | _ => none
  | .poll source =>
      r.runnable.map fun call => r.afterPoll (call.nextChunk timeout r.token source r.now)
  | .handled goesOn =>
      match r.phase with
      | .handling (.data _) => some { r with phase := if goesOn then .top else .ended }
      | .handling .paused =>
          some { r with phase := if goesOn then .resuming none else .ended }
      | .handling .eof => some { r with phase := .ended }
      | _ => none
  | .pollResume =>
      match r.phase with
      | .resuming sleep =>
          if sleep.all Sleep.woken then
            match r.token.waitForResume with
            | .pending wakers => some { r with phase := .resuming (some (.park wakers)) }
            | .ready _ => some { r with phase := if r.token.cancelled then .ended else .top }
          else none
      | _ => none
  | .cancel => some (r.publishState r.token.cancel)
  | .cancelWithDeadline => some (r.publishState r.token.cancelWithDeadline)
  | .pause => some (r.publishState r.token.pause)
  | .unpause => some (r.publishState r.token.unpause)
  | .arrive => some (r.fire .source)
  | .tick n => some (r.advance n)

namespace Reader

variable {timeout : ℕ} {r r' : Reader} {e : ReaderEvent}

/-! ### Parked reads -/

/-- The reader is parked in `next_chunk`. -/
def isParked (r : Reader) : Bool :=
  match r.phase with
  | .parked _ _ => true
  | _ => false

/-- The reader is parked in `next_chunk` and nothing has woken it. -/
def asleep (r : Reader) : Bool :=
  match r.phase with
  | .parked _ sleep => !sleep.woken
  | _ => false

/-- What the reader is registered with while it is parked in `next_chunk`. -/
def registered (r : Reader) : List Interest :=
  match r.phase with
  | .parked _ sleep => sleep.wakers
  | _ => []

theorem isParked_of_asleep (h : r.asleep = true) : r.isParked = true := by
  rcases hp : r.phase with - | call | ⟨call, sleep⟩ | event | sleep | - <;>
    simp [asleep, isParked, hp] at h ⊢

@[simp] theorem fire_isParked (r : Reader) (i : Interest) : (r.fire i).isParked = r.isParked := by
  unfold fire
  split
  · rename_i hp
    simp [isParked, hp]
  · rename_i hp
    simp [isParked, hp]
  · rfl

@[simp] theorem advance_isParked (r : Reader) (n : ℕ) :
    (r.advance n).isParked = r.isParked := by
  unfold advance
  simp only
  split
  · split_ifs
    · exact fire_isParked _ _
    · rfl
  · rfl

/-- After a poll the reader is parked exactly if the poll was pending. -/
theorem afterPoll_isParked (r : Reader) (p : Poll (Except DownloadError BodyEvent) × ReadCall) :
    (r.afterPoll p).isParked = true ↔ ∃ wakers, p.1 = .pending wakers := by
  obtain ⟨(event | error) | wakers, call⟩ := p <;> simp [afterPoll, isParked]

/-- A cancel or a pause interrupts the reader after this step: it does not sleep
through one, and a poll that parks it has registered with the token. -/
def Interruptible (timeout : ℕ) (r : Reader) (e : ReaderEvent) : Prop :=
  ∀ r', readerStep timeout r e = some r' →
    ¬ (r'.token.shouldStop = true ∧ r'.asleep = true) ∧
      ∀ source, e = .poll source → r'.isParked = true → .token ∈ r'.registered

/-- A poll of `next_chunk` finds the token set, the source ready or the idle
deadline reached. -/
def Answered (timeout : ℕ) (r : Reader) (e : ReaderEvent) : Prop :=
  ∀ source, e = .poll source → ∀ call, r.runnable = some call →
    r.token.shouldStop = true ∨ source.isPending = false ∨
      call.deadlineAt timeout r.now ≤ r.now

/-- A poll that is not answered parks the reader without the token. -/
theorem answered_of_interruptible (h : Interruptible timeout r e) : Answered timeout r e := by
  rintro source rfl call hcall
  by_contra hnot
  simp only [not_or, Bool.not_eq_true, Bool.not_eq_false, Nat.not_le] at hnot
  have hpending : (call.nextChunk timeout r.token source r.now).1 = .pending [.source, .idle] :=
    pollStep_pending_iff.mpr ⟨hnot, rfl⟩
  have hstep : readerStep timeout r (.poll source) =
      some (r.afterPoll (call.nextChunk timeout r.token source r.now)) := by
    simp [readerStep, hcall]
  have htoken := (h _ hstep).2 source rfl
    ((r.afterPoll_isParked _).mpr ⟨_, hpending⟩)
  simp only [ReadCall.nextChunk] at hpending
  simp [afterPoll, ReadCall.nextChunk, hpending, registered, Sleep.park] at htoken

/-- While every poll is answered the reader is never parked in `next_chunk`. -/
theorem Answered.not_parked (hok : Answered timeout r e) (h : r.isParked = false)
    (hs : readerStep timeout r e = some r') : r'.isParked = false := by
  cases e with
  | check =>
    simp only [readerStep] at hs
    split at hs
    · rw [← Option.some.inj hs]
      simp only [isParked]
      split_ifs <;> rfl
    · cases hs
  | poll source =>
    obtain ⟨call, hcall, rfl⟩ := Option.map_eq_some_iff.mp hs
    rw [Bool.eq_false_iff]
    intro hparked
    obtain ⟨wakers, hp⟩ := (r.afterPoll_isParked _).mp hparked
    obtain ⟨⟨hclear, hnothing, hahead⟩, -⟩ := pollStep_pending_iff.mp hp
    rcases hok source rfl call hcall with hstop | hready | hdue
    · simp [hclear] at hstop
    · simp [hnothing] at hready
    · exact absurd hahead (Nat.not_lt_of_le hdue)
  | handled goesOn =>
    simp only [readerStep] at hs
    split at hs
    · rw [← Option.some.inj hs]
      simp only [isParked]
      split_ifs <;> rfl
    · rw [← Option.some.inj hs]
      simp only [isParked]
      split_ifs <;> rfl
    · rw [← Option.some.inj hs]
      rfl
    · cases hs
  | pollResume =>
    simp only [readerStep] at hs
    split at hs
    · split at hs
      · split at hs
        · rw [← Option.some.inj hs]
          rfl
        · rw [← Option.some.inj hs]
          simp only [isParked]
          split_ifs <;> rfl
      · cases hs
    · cases hs
  | cancel | cancelWithDeadline | pause | unpause =>
    rw [← Option.some.inj hs, publishState, fire_isParked]
    exact h
  | arrive =>
    rw [← Option.some.inj hs, fire_isParked]
    exact h
  | tick n =>
    rw [← Option.some.inj hs, advance_isParked]
    exact h

/-- **When reads can be interrupted.**  In a run of the sequential reader a
cancel or a pause is never slept through and every pending poll has registered
with the token, exactly if every poll in it is answered at once. -/
theorem reader_interruptible_iff (timeout : ℕ) (es : List ReaderEvent) :
    runOk (readerStep timeout) (Interruptible timeout) start es ↔
      runOk (readerStep timeout) (Answered timeout) start es := by
  constructor
  · exact runOk.imp (I := fun _ => True) (fun _ _ _ h => answered_of_interruptible h)
      (fun _ _ _ _ _ _ => trivial) trivial
  · refine runOk.imp (I := fun r => r.isParked = false) (fun r e hr hok r' hs => ?_)
      (fun _ _ _ hr hok hs => hok.not_parked hr hs) rfl
    have hnot := hok.not_parked hr hs
    refine ⟨fun ⟨_, hasleep⟩ => ?_, fun _ _ hparked => ?_⟩
    · rw [isParked_of_asleep hasleep] at hnot
      cases hnot
    · rw [hparked] at hnot
      cases hnot

/-- The source has nothing yet, and the user cancels. -/
theorem cancel_sleeps_through_read :
    ¬ ∀ (timeout : ℕ) (es : List ReaderEvent),
      runOk (readerStep timeout) (Interruptible timeout) start es := by
  intro h
  obtain ⟨-, hpolled⟩ := h 30000 [.check, .poll .pending, .cancel]
  obtain ⟨-, hcancelled⟩ := hpolled _ rfl
  obtain ⟨hlast, -⟩ := hcancelled _ rfl
  exact (hlast _ rfl).1 ⟨rfl, rfl⟩

/-! ### The wait for the end of a pause -/

/-- A reader parked over a pause is registered with the token, and is woken
unless the pause is still on. -/
def Resting (r : Reader) : Prop :=
  ∀ sleep, r.phase = .resuming (some sleep) → .token ∈ sleep.wakers ∧
    (sleep.woken = true ∨ r.token.paused = true ∧ r.token.cancelled = false)

theorem Resting.fire (h : r.Resting) (i : Interest) : (r.fire i).Resting := by
  intro sleep hp
  unfold Reader.fire at hp ⊢
  rcases hr : r.phase with - | call | ⟨call, sleep'⟩ | event | (- | sleep') | -
  case resuming.some =>
    rw [hr] at hp
    obtain rfl : sleep'.fire i = sleep := by simpa using hp
    obtain ⟨hmem, hwoken⟩ := h sleep' hr
    rw [Sleep.fire_wakers]
    exact ⟨hmem, hwoken.imp_left (Sleep.fire_keeps _ i)⟩
  all_goals
    rw [hr] at hp
    simp [hr] at hp

/-- A change of the token wakes whoever is registered with it. -/
theorem Resting.publishState (h : r.Resting) (token : CancellationToken) :
    (r.publishState token).Resting := by
  intro sleep hp
  unfold Reader.publishState Reader.fire at hp
  rcases hr : r.phase with - | call | ⟨call, sleep'⟩ | event | (- | sleep') | -
  case resuming.some =>
    simp only [hr] at hp
    obtain rfl : sleep'.fire .token = sleep := by simpa using hp
    have hmem := (h sleep' hr).1
    rw [Sleep.fire_wakers]
    exact ⟨hmem, .inl (Sleep.fire_woken _ hmem)⟩
  all_goals
    simp [hr] at hp

/-- **A parked reader stays registered or is woken.** -/
theorem Resting.step (h : r.Resting) (hs : readerStep timeout r e = some r') : r'.Resting := by
  cases e with
  | check =>
    simp only [readerStep] at hs
    split at hs
    · rw [← Option.some.inj hs]
      intro sleep hp
      simp only at hp
      split_ifs at hp
    · cases hs
  | poll source =>
    obtain ⟨call, -, rfl⟩ := Option.map_eq_some_iff.mp hs
    intro sleep hp
    rcases hpoll : call.nextChunk timeout r.token source r.now with ⟨(error | event) | wakers, _⟩
    all_goals
      rw [hpoll] at hp
      cases hp
  | handled goesOn =>
    simp only [readerStep] at hs
    split at hs
    · rw [← Option.some.inj hs]
      intro sleep hp
      simp only at hp
      split_ifs at hp
    · rw [← Option.some.inj hs]
      intro sleep hp
      simp only at hp
      split_ifs at hp
      cases hp
    · rw [← Option.some.inj hs]
      intro sleep hp
      cases hp
    · cases hs
  | pollResume =>
    simp only [readerStep] at hs
    split at hs
    · split at hs
      · unfold CancellationToken.waitForResume at hs
        rcases hc : r.token.cancelled with - | - <;> rcases hpause : r.token.paused with - | - <;>
          simp only [hc, hpause, Bool.not_true, Bool.not_false, Bool.false_eq_true, if_true,
            if_false, Option.some.injEq] at hs <;> rw [← hs] <;> intro sleep hp
        · cases hp
        · -- parked while the pause is on
          obtain rfl : Sleep.park [.token] = sleep := by simpa using hp
          exact ⟨by simp [Sleep.park], .inr ⟨hpause, hc⟩⟩
        · cases hp
        · cases hp
      · cases hs
    · cases hs
  | cancel | cancelWithDeadline | pause | unpause =>
    rw [← Option.some.inj hs]
    exact h.publishState _
  | arrive =>
    rw [← Option.some.inj hs]
    exact h.fire _
  | tick n =>
    rw [← Option.some.inj hs]
    have hlater : ({ r with now := r.now + n } : Reader).Resting := h
    unfold advance
    simp only
    split
    · split_ifs
      · exact hlater.fire _
      · exact hlater
    · exact hlater

/-- **A pause is never slept through.**  Whatever happens, a reader that is
parked over a pause has been woken, or the pause is still on and the job is not
cancelled. -/
theorem resuming_not_slept_through (timeout : ℕ) (r : Reader)
    (h : Reach (readerStep timeout) (fun _ _ => True) (· = start) r) (sleep : Sleep)
    (hp : r.phase = .resuming (some sleep)) :
    sleep.woken = true ∨ r.token.paused = true ∧ r.token.cancelled = false := by
  have hrest : r.Resting := h.invariant (by rintro _ rfl; intro sleep hp; cases hp)
    fun _ _ _ hr _ hs => hr.step hs
  exact (hrest sleep hp).2

end Reader

end KDown
