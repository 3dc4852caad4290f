/-
KDown/EventStream.lean

The events of a job and their subscribers (engine metrics/events.rs).

The hub sends events over a broadcast channel and keeps a terminal flag in a
watch.  A subscriber's `next` drains the channel, then looks at the flag, and
then waits for either of the two; the three are separate steps, and everything
else may happen in between.  The hub itself is kept by its owner, so neither
channel closes.

Two things go wrong.  A watch without receivers drops what is sent to it, so a
hub that finishes while nobody listens never tells later subscribers.  And an
event that arrives after the drain is lost when the hub finishes before the
subscriber looks at the flag.  `Finishes` excludes the two.
-/
import KDown.Broadcast
import KDown.Runs

namespace KDown

open Broadcast

/-! ### State -/

/-- Where a subscriber stands. -/
inductive NextPhase
  | idle
  /-- About to receive without waiting, inside `next`. -/
  | draining
  /-- Found the channel empty, and is about to look at the flag. -/
  | checking
  | waiting
  /-- About to receive without waiting, inside `try_next`. -/
  | polling
  deriving DecidableEq, Repr

/-- A subscriber of the hub. -/
structure EventStream (α : Type*) where
  rx : Receiver
  /-- The version of the terminal flag seen last. -/
  seen : ℕ
  phase : NextPhase
  /-- The stream was not dropped. -/
  live : Bool
  /-- The subscription was made after `finish`. -/
  late : Bool
  /-- What `next` and `try_next` returned. -/
  returned : List α
  /-- `next` returned `None`. -/
  ended : Bool
  deriving DecidableEq, Repr

/-- The hub, with what was sent and who listens. -/
structure EventHub (α : Type*) where
  sent : List α
  terminal : Bool
  version : ℕ
  streams : List (EventStream α)
  /-- How many events were sent when `finish` was called first. -/
  finishedAt : Option ℕ
  deriving DecidableEq, Repr

/-- What is done with one stream. -/
inductive StreamEvent
  | drop
  | next
  | tryNext
  /-- The future of a waiting `next` is dropped. -/
  | abandon
  | tryRecv
  | check
  /-- A waiting stream takes the ready receive. -/
  | recv
  /-- A waiting stream takes the change of the flag. -/
  | changed
  deriving DecidableEq, Repr

/-- What is done with the hub. -/
inductive HubEvent (α : Type*)
  | emit (a : α)
  | finish
  | subscribe
  | stream (i : ℕ) (e : StreamEvent)
  deriving DecidableEq, Repr

variable {α : Type*} (capacity : ℕ)

/-- One attempt to receive; `onEmpty` is where an empty channel leads. -/
def EventStream.receive (st : EventStream α) (sent : List α) (onEmpty : NextPhase) :
    EventStream α :=
  match st.rx.tryRecv capacity sent with
  | (.value a, rx) => { st with rx := rx, phase := .idle, returned := st.returned ++ [a] }
  | (.lagged, rx) => { st with rx := rx }
  | (.empty, _) => { st with phase := onEmpty }

namespace EventHub

/-- The stream of a new subscription. -/
def newStream (s : EventHub α) : EventStream α :=
  ⟨Broadcast.subscribe s.sent, s.version, .idle, true, s.finishedAt.isSome, [], false⟩

/-- A new stream, which sees what is sent from now on. -/
def subscribe (s : EventHub α) : EventHub α := { s with streams := s.streams ++ [s.newStream] }

/-- A hub and the stream it comes with. -/
def new : EventHub α := subscribe ⟨[], false, 0, [], none⟩

/-- Somebody holds a receiver of the two channels. -/
def listened (s : EventHub α) : Bool := s.streams.any (·.live)

/-- The send is refused without receivers. -/
def emit (s : EventHub α) (a : α) : EventHub α :=
  if s.listened then { s with sent := s.sent ++ [a] } else s

/-- Set the flag; the watch drops a value nobody can receive. -/
def finish (s : EventHub α) : EventHub α :=
  let s := { s with finishedAt := s.finishedAt.or (some s.sent.length) }
  if s.listened then { s with terminal := true, version := s.version + 1 } else s

/-- One step of `next` or `try_next`, or a drop. -/
def streamStep (s : EventHub α) (st : EventStream α) : StreamEvent → Option (EventStream α)
  | .drop => some { st with live := false }
  | .next => if st.phase = .idle then some { st with phase := .draining } else none
  | .tryNext => if st.phase = .idle then some { st with phase := .polling } else none
  | .abandon => if st.phase = .waiting then some { st with phase := .idle } else none
  | .tryRecv =>
      match st.phase with
      | .draining => some (st.receive capacity s.sent .checking)
      | .polling => some (st.receive capacity s.sent .idle)
      | _ => none
  | .check =>
      if st.phase = .checking then
        if s.terminal then some { st with phase := .idle, ended := true }
        else some { st with phase := .waiting }
      else none
  | .recv =>
      -- a lag leads back to the top of the loop
      if st.phase = .waiting ∧ st.rx.next < s.sent.length then
        some ({ st with phase := .draining }.receive capacity s.sent .draining)
      else none
  | .changed =>
      if st.phase = .waiting ∧ st.seen ≠ s.version then
        some { st with phase := .draining, seen := s.version }
      else none

/-- One event. -/
def step (s : EventHub α) : HubEvent α → Option (EventHub α)
  | .emit a => some (s.emit a)
  | .finish => some s.finish
  | .subscribe => some s.subscribe
  | .stream i e =>
      match s.streams[i]? with
      | none => none
      | some st =>
          if st.live then
            (s.streamStep capacity st e).map fun st' => { s with streams := s.streams.set i st' }
          else none

/-- A finish that is recorded, while no stream that found the channel empty
has an event waiting. -/
def Finishes (s : EventHub α) : HubEvent α → Prop
  | .finish => s.terminal = true ∨ s.listened = true ∧
      ∀ st ∈ s.streams, st.live = true → st.phase = .checking → st.rx.next = s.sent.length
  | _ => True

/-! ### What a step does -/

variable {capacity} {s s' : EventHub α} {st st' : EventStream α}

theorem step_stream {i : ℕ} {e : StreamEvent} (h : s.step capacity (.stream i e) = some s') :
    ∃ st st', s.streams[i]? = some st ∧ st.live = true ∧
      s.streamStep capacity st e = some st' ∧ s' = { s with streams := s.streams.set i st' } := by
  simp only [step] at h
  rcases hi : s.streams[i]? with _ | st <;> simp only [hi] at h
  · cases h
  · split_ifs at h with hlive
    obtain ⟨st', hst', rfl⟩ := Option.map_eq_some_iff.mp h
    exact ⟨st, st', rfl, hlive, hst', rfl⟩

/-- What an attempt to receive does to a stream. -/
theorem receive_cases (capacity : ℕ) (st : EventStream α) (sent : List α) (onEmpty : NextPhase) :
    (st.rx.next < oldest capacity sent ∧ st.receive capacity sent onEmpty =
      { st with rx := (st.rx.tryRecv capacity sent).2 } ∧
      (st.rx.tryRecv capacity sent).2.taken = st.rx.taken ∧
      (st.rx.tryRecv capacity sent).2.next = oldest capacity sent) ∨
    (∃ a, sent[st.rx.next]? = some a ∧ st.receive capacity sent onEmpty =
      { st with
        rx := (st.rx.tryRecv capacity sent).2
        phase := .idle
        returned := st.returned ++ [a] } ∧
      (st.rx.tryRecv capacity sent).2.taken = st.rx.taken ++ [st.rx.next] ∧
      (st.rx.tryRecv capacity sent).2.next = st.rx.next + 1) ∨
    (sent.length ≤ st.rx.next ∧ st.receive capacity sent onEmpty = { st with phase := onEmpty }) := by
  unfold EventStream.receive
  rcases Receiver.tryRecv_cases capacity st.rx sent with
    ⟨hlag, hrecv⟩ | ⟨a, -, hat, hrecv⟩ | ⟨hempty, hrecv⟩ <;> rw [hrecv]
  · exact .inl ⟨hlag, rfl, rfl, rfl⟩
  · exact .inr (.inl ⟨a, hat, rfl, rfl, rfl⟩)
  · exact .inr (.inr ⟨hempty, rfl⟩)

/-! ### The invariant -/

/-- What holds of a stream.  A stream that is about to look at the flag, or
has returned `None`, is past everything sent before the finish. -/
structure Follows (capacity : ℕ) (s : EventHub α) (st : EventStream α) : Prop where
  sound : st.rx.Sound capacity s.sent
  returned : st.returned.map some = st.rx.taken.map fun p => s.sent[p]?
  seen_le : st.seen ≤ s.version
  late : st.late = true → 0 < st.seen
  waiting : st.phase = .waiting → st.seen = 0
  checking : st.live = true → st.phase = .checking →
    ∀ n, s.finishedAt = some n → n ≤ st.rx.next
  ended : st.ended = true → ∃ n, s.finishedAt = some n ∧ n ≤ st.rx.next

/-- The terminal flag and its version agree, and every stream follows the hub. -/
structure Inv (capacity : ℕ) (s : EventHub α) : Prop where
  finished : s.finishedAt.isSome = true ↔ s.terminal = true
  version : s.terminal = true ↔ 0 < s.version
  finished_le : ∀ n, s.finishedAt = some n → n ≤ s.sent.length
  follows : ∀ st ∈ s.streams, Follows capacity s st

/-- A phase of a stream that asserts nothing. -/
theorem Follows.setPhase (h : Follows capacity s st) {phase : NextPhase}
    (hwait : phase ≠ .waiting) (hcheck : phase ≠ .checking) :
    Follows capacity s { st with phase := phase } :=
  { h with
    waiting := fun hp => absurd hp hwait
    checking := fun _ hp => absurd hp hcheck }

/-- A receive moves the stream on by what it has found. -/
theorem Follows.receive (h : Follows capacity s st)
    (hle : ∀ n, s.finishedAt = some n → n ≤ s.sent.length)
    (hcheck : st.phase ≠ .checking) {onEmpty : NextPhase} (hempty : onEmpty ≠ .waiting) :
    Follows capacity s (st.receive capacity s.sent onEmpty) := by
  have hsound := h.sound.tryRecv
  have hnext := Receiver.tryRecv_next capacity st.rx s.sent
  -- a position never goes back, so what lay below it still does
  have hended : st.ended = true →
      ∃ n, s.finishedAt = some n ∧ n ≤ (st.rx.tryRecv capacity s.sent).2.next := by
    intro hend
    obtain ⟨n, hn, hnle⟩ := h.ended hend
    exact ⟨n, hn, hnle.trans hnext⟩
  rcases receive_cases capacity st s.sent onEmpty with
    ⟨-, hrecv, htaken, -⟩ | ⟨a, hat, hrecv, htaken, -⟩ | ⟨hlen, hrecv⟩ <;> rw [hrecv]
  · refine { h with
      sound := hsound
      returned := ?_
      checking := fun _ hp => absurd hp hcheck
      ended := hended }
    rw [htaken]
    exact h.returned
  · refine { h with
      sound := hsound
      returned := ?_
      waiting := fun hp => by cases hp
      checking := fun _ hp => by cases hp
      ended := hended }
    rw [htaken, List.map_append, List.map_append, h.returned]
    exact congrArg _ (congrArg (fun x => [x]) hat.symm)
  · exact { h with
      waiting := fun hp => absurd hp hempty
      checking := fun _ _ n hn => (hle n hn).trans hlen }

/-- A step of the stream itself. -/
theorem Follows.streamStep (h : Follows capacity s st) (hinv : Inv capacity s)
    (hlive : st.live = true) {e : StreamEvent} (hs : s.streamStep capacity st e = some st') :
    Follows capacity s st' := by
  cases e with
  | drop =>
    rw [← Option.some.inj hs]
    exact { h with checking := fun hno => by cases hno }
  | next | tryNext | abandon =>
    simp only [EventHub.streamStep] at hs
    split_ifs at hs
    rw [← Option.some.inj hs]
    exact h.setPhase (fun hno => by cases hno) (fun hno => by cases hno)
  | tryRecv =>
    simp only [EventHub.streamStep] at hs
    rcases hp : st.phase with _ | _ | _ | _ | _ <;> rw [hp] at hs <;> cases hs
    all_goals
      refine h.receive hinv.finished_le ?_ ?_
      · rw [hp]
        exact fun hno => by cases hno
      · exact fun hno => by cases hno
  | check =>
    simp only [EventHub.streamStep] at hs
    split_ifs at hs with hp hterm <;> rw [← Option.some.inj hs]
    · -- the flag is set, and the stream is past what was sent before
      obtain ⟨n, hn⟩ := Option.isSome_iff_exists.mp (hinv.finished.mpr hterm)
      exact { h with
        waiting := fun hno => by cases hno
        checking := fun _ hno => by cases hno
        ended := fun _ => ⟨n, hn, h.checking hlive hp n hn⟩ }
    · -- before the flag is set, its first version is the only one
      have hver : s.version = 0 := by
        by_contra hne
        exact hterm (hinv.version.mpr (Nat.pos_of_ne_zero hne))
      exact { h with
        waiting := fun _ => Nat.le_zero.mp (hver ▸ h.seen_le)
        checking := fun _ hno => by cases hno }
  | recv =>
    simp only [EventHub.streamStep] at hs
    split_ifs at hs
    rw [← Option.some.inj hs]
    have h' : Follows capacity s { st with phase := .draining } :=
      h.setPhase (fun hno => by cases hno) (fun hno => by cases hno)
    exact h'.receive hinv.finished_le (fun hno => by cases hno)
      (fun hno => by cases hno)
  | changed =>
    simp only [EventHub.streamStep] at hs
    split_ifs at hs
    rw [← Option.some.inj hs]
    exact { h with
      seen_le := le_rfl
      late := fun hlate => (h.late hlate).trans_le h.seen_le
      waiting := fun hno => by cases hno
      checking := fun _ hno => by cases hno }

theorem Follows.emit (h : Follows capacity s st) (a : α) : Follows capacity (s.emit a) st := by
  unfold EventHub.emit
  split_ifs
  · refine { h with sound := h.sound.send a, returned := ?_ }
    rw [h.returned]
    refine List.map_congr_left fun p hp => ?_
    have hlt := (h.sound.taken_lt hp).trans_le h.sound.next_le
    exact (List.getElem?_append_left hlt).symm
  · exact h

theorem Inv.emit (h : Inv capacity s) (a : α) : Inv capacity (s.emit a) := by
  have hfollows : ∀ st ∈ s.streams, Follows capacity (s.emit a) st :=
    fun st hst => (h.follows st hst).emit a
  unfold EventHub.emit at hfollows ⊢
  split_ifs at hfollows ⊢
  · refine { h with finished_le := fun n hn => ?_, follows := hfollows }
    rw [List.length_append]
    exact (h.finished_le n hn).trans (Nat.le_add_right _ _)
  · exact h

theorem Inv.subscribe (h : Inv capacity s) : Inv capacity s.subscribe := by
  refine { h with follows := fun st hst => ?_ }
  rcases List.mem_append.mp hst with hst | hst
  · exact { h.follows st hst with }
  · rw [List.mem_singleton.mp hst]
    exact {
      sound := Receiver.sound_subscribe s.sent
      returned := rfl
      seen_le := le_rfl
      late := fun hlate => h.version.mp (h.finished.mp hlate)
      waiting := fun hno => by cases hno
      checking := fun _ hno => by cases hno
      ended := fun hno => by cases hno }

/-- A finish after the first one that was recorded. -/
theorem finish_again (hinv : Inv capacity s) (hterm : s.terminal = true) :
    s.finish = s ∨ s.finish = { s with version := s.version + 1 } := by
  obtain ⟨n, hn⟩ := Option.isSome_iff_exists.mp (hinv.finished.mpr hterm)
  unfold EventHub.finish
  have hor : s.finishedAt.or (some s.sent.length) = s.finishedAt := by
    rw [hn]
    rfl
  simp only [hor]
  split_ifs
  · right
    rw [← hterm]
  · exact .inl rfl

/-- A finish that is recorded leaves every stream on its way to its end. -/
theorem Inv.finish (h : Inv capacity s) (hok : Finishes s (.finish : HubEvent α)) :
    Inv capacity s.finish := by
  by_cases hterm : s.terminal = true
  · rcases finish_again h hterm with hsame | hsame <;> rw [hsame]
    · exact h
    · exact {
        finished := h.finished
        version := iff_of_true hterm (Nat.succ_pos _)
        finished_le := h.finished_le
        follows := fun st hst =>
          { h.follows st hst with seen_le := (h.follows st hst).seen_le.trans (Nat.le_succ _) } }
  · obtain ⟨hlisten, hdrained⟩ := hok.resolve_left hterm
    have hnone : s.finishedAt = none := by
      rw [← Option.not_isSome_iff_eq_none]
      exact fun hsome => hterm (h.finished.mp hsome)
    have hfinish : s.finish = { s with
        finishedAt := some s.sent.length, terminal := true, version := s.version + 1 } := by
      unfold EventHub.finish
      rw [hnone]
      exact if_pos hlisten
    rw [hfinish]
    refine ⟨iff_of_true rfl rfl, iff_of_true rfl (Nat.succ_pos _), ?_, fun st hst => ?_⟩
    · intro n hn
      exact (Option.some.inj hn).ge
    · have hst' := h.follows st hst
      refine { hst' with
        seen_le := hst'.seen_le.trans (Nat.le_succ _)
        checking := fun hlive hp n hn => ?_
        ended := fun hend => ?_ }
      · rw [← Option.some.inj hn, hdrained st hst hlive hp]
      · -- nothing had ended before the first finish
        obtain ⟨n, hn, -⟩ := hst'.ended hend
        rw [hnone] at hn
        cases hn

/-- **The invariant is kept** by every step whose finish is recorded. -/
theorem Inv.step (h : Inv capacity s) {e : HubEvent α} (hok : s.Finishes e)
    (hs : s.step capacity e = some s') : Inv capacity s' := by
  cases e with
  | emit a =>
    rw [← Option.some.inj hs]
    exact h.emit a
  | finish =>
    rw [← Option.some.inj hs]
    exact h.finish hok
  | subscribe =>
    rw [← Option.some.inj hs]
    exact h.subscribe
  | stream i e =>
    obtain ⟨st, st', hi, hlive, hst', rfl⟩ := step_stream hs
    have hmem := List.mem_of_getElem? hi
    have hfollows := (h.follows st hmem).streamStep h hlive hst'
    refine { h with follows := fun st₁ hst₁ => ?_ }
    rcases List.mem_or_eq_of_mem_set hst₁ with hst₁ | rfl
    · exact { h.follows st₁ hst₁ with }
    · exact { hfollows with }

theorem inv_new : Inv capacity (new : EventHub α) := by
  refine Inv.subscribe ⟨?_, ?_, ?_, ?_⟩
  · exact iff_of_false (fun hno => by cases hno) (fun hno => by cases hno)
  · exact iff_of_false (fun hno => by cases hno) (lt_irrefl 0)
  · exact fun n hn => by cases hn
  · exact fun st hst => by cases hst

/-! ### The end of a stream -/

/-- How many steps a stream may take before its next event is returned. -/
def weight : NextPhase → ℕ
  | .idle | .waiting => 3
  | .draining => 2
  | .checking => 1
  | .polling => 4

/-- A bound on the steps of a stream until it ends, if nothing more is sent. -/
def rank (sent : List α) (st : EventStream α) : ℕ := 4 * st.rx.pending sent + weight st.phase

/-- The subscriber keeps the stream and calls nothing but `next`. -/
def keepsCalling (i : ℕ) : HubEvent α → Bool
  | .stream j e => j ≠ i || (e ≠ .drop && e ≠ .tryNext && e ≠ .abandon)
  | _ => true

/-- The event is one of the stream. -/
def isOwn (i : ℕ) : HubEvent α → Bool
  | .stream j _ => j = i
  | _ => false

/-- The event sends something. -/
def isEmit : HubEvent α → Bool
  | .emit _ => true
  | _ => false

/-- An attempt to receive uses up a step. -/
theorem rank_receive (sent : List α) (st : EventStream α) {onEmpty : NextPhase}
    (hempty : sent.length ≤ st.rx.next → weight onEmpty < weight st.phase) :
    rank sent (st.receive capacity sent onEmpty) < rank sent st := by
  have hle : oldest capacity sent ≤ sent.length := Nat.sub_le _ _
  unfold rank Receiver.pending
  rcases receive_cases capacity st sent onEmpty with
    ⟨hlag, hrecv, -, hnext⟩ | ⟨a, hat, hrecv, -, hnext⟩ | ⟨hlen, hrecv⟩ <;> rw [hrecv]
  · dsimp only
    rw [hnext]
    omega
  · have hlt := (List.getElem?_eq_some_iff.mp hat).1
    dsimp only
    rw [hnext]
    show 4 * (sent.length - (st.rx.next + 1)) + 3 < _
    omega
  · have hweight := hempty hlen
    dsimp only
    omega

theorem receive_keeps (capacity : ℕ) (st : EventStream α) (sent : List α) (onEmpty : NextPhase) :
    (st.receive capacity sent onEmpty).live = st.live ∧
      (st.receive capacity sent onEmpty).ended = st.ended := by
  rcases receive_cases capacity st sent onEmpty with ⟨-, h, -⟩ | ⟨a, -, h, -⟩ | ⟨-, h⟩ <;>
    rw [h] <;> exact ⟨rfl, rfl⟩

/-- A stream of a finished hub ends or comes closer to its end. -/
theorem streamStep_rank (hterm : s.terminal = true) {i : ℕ} {e : StreamEvent}
    (hkeeps : keepsCalling i (.stream i e : HubEvent α) = true) (hlive : st.live = true)
    (hs : s.streamStep capacity st e = some st') :
    st'.live = true ∧ (st.ended = true → st'.ended = true) ∧
      (st'.ended = true ∨ rank s.sent st' < rank s.sent st) := by
  cases e with
  | drop | tryNext | abandon => simp [keepsCalling] at hkeeps
  | next =>
    simp only [streamStep] at hs
    split_ifs at hs with hp
    rw [← Option.some.inj hs]
    refine ⟨hlive, id, .inr ?_⟩
    simp [rank, hp, weight]
  | tryRecv =>
    simp only [streamStep] at hs
    rcases hp : st.phase with _ | _ | _ | _ | _ <;> rw [hp] at hs <;> cases hs
    all_goals
      obtain ⟨hlive', hended'⟩ := receive_keeps capacity st s.sent _
      refine ⟨hlive'.trans hlive, fun hend => hended'.trans hend, .inr (rank_receive s.sent st ?_)⟩
      rw [hp]
      exact fun _ => by decide
  | check =>
    simp only [streamStep, hterm, if_true] at hs
    split_ifs at hs
    rw [← Option.some.inj hs]
    exact ⟨hlive, fun _ => rfl, .inl rfl⟩
  | recv =>
    simp only [streamStep] at hs
    split_ifs at hs with hp
    rw [← Option.some.inj hs]
    obtain ⟨hlive', hended'⟩ :=
      receive_keeps capacity { st with phase := .draining } s.sent .draining
    refine ⟨hlive'.trans hlive, fun hend => hended'.trans hend, .inr ?_⟩
    have hrank : rank s.sent ({ st with phase := .draining }.receive capacity s.sent .draining) <
        rank s.sent { st with phase := .draining } :=
      rank_receive s.sent _ fun hlen => absurd hp.2 (not_lt.mpr hlen)
    refine hrank.trans ?_
    simp [rank, hp.1, weight]
  | changed =>
    simp only [streamStep] at hs
    split_ifs at hs with hp
    rw [← Option.some.inj hs]
    refine ⟨hlive, id, .inr ?_⟩
    simp [rank, hp.1, weight]

/-- The flag stays set. -/
theorem step_terminal {e : HubEvent α} (hterm : s.terminal = true)
    (hs : s.step capacity e = some s') : s'.terminal = true := by
  cases e with
  | emit a =>
    rw [← Option.some.inj hs]
    unfold EventHub.emit
    split_ifs <;> exact hterm
  | finish =>
    rw [← Option.some.inj hs]
    unfold EventHub.finish
    dsimp only
    split_ifs
    · rfl
    · exact hterm
  | subscribe =>
    rw [← Option.some.inj hs]
    exact hterm
  | stream i e =>
    obtain ⟨st, st', -, -, -, rfl⟩ := step_stream hs
    exact hterm

/-- One step of the hub, seen from a stream whose subscriber keeps calling. -/
theorem step_rank {i : ℕ} {e : HubEvent α} (hterm : s.terminal = true)
    (hkeeps : keepsCalling i e = true) (hi : s.streams[i]? = some st) (hlive : st.live = true)
    (hs : s.step capacity e = some s') :
    ∃ st', s'.streams[i]? = some st' ∧ st'.live = true ∧ (st.ended = true → st'.ended = true) ∧
      (st'.ended = true ∨
        (isOwn i e).toNat + rank s'.sent st' ≤ rank s.sent st + 4 * (isEmit e).toNat) := by
  cases e with
  | emit a =>
    rw [← Option.some.inj hs]
    have hlen : (s.emit a).sent.length ≤ s.sent.length + 1 := by
      unfold EventHub.emit
      split_ifs
      · rw [List.length_append]
        rfl
      · exact Nat.le_succ _
    have hsame : (s.emit a).streams = s.streams := by
      unfold EventHub.emit
      split_ifs <;> rfl
    refine ⟨st, by rw [hsame]; exact hi, hlive, id, .inr ?_⟩
    unfold rank Receiver.pending
    show 0 + _ ≤ _ + 4 * 1
    omega
  | finish =>
    rw [← Option.some.inj hs]
    have hsame : s.finish.streams = s.streams ∧ s.finish.sent = s.sent := by
      unfold EventHub.finish
      dsimp only
      split_ifs <;> exact ⟨rfl, rfl⟩
    refine ⟨st, by rw [hsame.1]; exact hi, hlive, id, .inr ?_⟩
    rw [hsame.2]
    show 0 + _ ≤ _ + 4 * 0
    omega
  | subscribe =>
    rw [← Option.some.inj hs]
    have hlt := (List.getElem?_eq_some_iff.mp hi).1
    refine ⟨st, ?_, hlive, id, .inr ?_⟩
    · show (s.streams ++ [s.newStream])[i]? = some st
      rw [List.getElem?_append_left hlt]
      exact hi
    · show 0 + rank s.sent st ≤ rank s.sent st + 4 * 0
      omega
  | stream j e =>
    obtain ⟨st₁, st', hj, hlive₁, hst', rfl⟩ := step_stream hs
    rcases eq_or_ne j i with rfl | hne
    · rw [hi] at hj
      rw [← Option.some.inj hj] at hst'
      obtain ⟨hlive', hend, hless⟩ := streamStep_rank hterm hkeeps hlive hst'
      have hlt := (List.getElem?_eq_some_iff.mp hi).1
      refine ⟨st', by simp [hlt], hlive', hend, hless.imp_right fun hlt => ?_⟩
      show (decide (j = j)).toNat + rank s.sent st' ≤ rank s.sent st + 4 * 0
      rw [decide_eq_true rfl]
      show 1 + _ ≤ _
      omega
    · refine ⟨st, by simpa [List.getElem?_set_ne hne] using hi, hlive, id, .inr ?_⟩
      show (decide (j = i)).toNat + rank s.sent st ≤ rank s.sent st + 4 * 0
      rw [decide_eq_false hne]
      show 0 + _ ≤ _
      omega

/-- **The end comes.**  After the finish a stream whose subscriber keeps calling
`next` has ended, unless the number of its steps is still within the bound. -/
theorem run_rank {i : ℕ} {es : List (HubEvent α)} (hterm : s.terminal = true)
    (hkeeps : ∀ e ∈ es, keepsCalling i e = true) (hi : s.streams[i]? = some st)
    (hlive : st.live = true) (hrun : runEvents (step capacity) s es = some s') :
    ∃ st', s'.streams[i]? = some st' ∧ (st.ended = true → st'.ended = true) ∧
      (st'.ended = true ∨
        es.countP (isOwn i) + rank s'.sent st' ≤ rank s.sent st + 4 * es.countP isEmit) := by
  induction es generalizing s st with
  | nil =>
    rw [← Option.some.inj hrun]
    exact ⟨st, hi, id, .inr (by simp)⟩
  | cons e es ih =>
    obtain ⟨s₁, hs₁, hrest⟩ := Option.bind_eq_some_iff.mp hrun
    obtain ⟨st₁, hi₁, hlive₁, hend₁, hrank₁⟩ :=
      step_rank hterm (hkeeps e List.mem_cons_self) hi hlive hs₁
    have hkeeps' : ∀ e ∈ es, keepsCalling i e = true :=
      fun e' he' => hkeeps e' (List.mem_cons_of_mem _ he')
    obtain ⟨st', hi', hend, hrank⟩ := ih (step_terminal hterm hs₁) hkeeps' hi₁ hlive₁ hrest
    refine ⟨st', hi', fun h => hend (hend₁ h), ?_⟩
    rcases hrank₁ with hended | hle₁
    · exact .inl (hend hended)
    · -- the step pays for itself, the rest of the run for the rest
      refine hrank.imp_right fun hle => ?_
      have hown : (e :: es).countP (isOwn i) = es.countP (isOwn i) + (isOwn i e).toNat := by
        rw [List.countP_cons]
        cases isOwn i e <;> rfl
      have hemit : (e :: es).countP isEmit = es.countP isEmit + (isEmit e).toNat := by
        rw [List.countP_cons]
        cases isEmit e <;> rfl
      rw [hown, hemit]
      omega

/-- A stream of a finished hub never has to wait. -/
theorem enabled_of_terminal (hinv : Inv capacity s) (hterm : s.terminal = true) {i : ℕ}
    (hi : s.streams[i]? = some st) (hlive : st.live = true) :
    ∃ e s', keepsCalling i (.stream i e : HubEvent α) = true ∧
      s.step capacity (.stream i e) = some s' := by
  have hstep : ∀ {e st'}, s.streamStep capacity st e = some st' →
      s.step capacity (.stream i e) = some { s with streams := s.streams.set i st' } := by
    intro e st' hst'
    simp only [step, hi, hlive, if_true, hst']
    rfl
  rcases hp : st.phase with _ | _ | _ | _ | _
  · exact ⟨.next, _, by simp [keepsCalling], hstep (if_pos hp)⟩
  · exact ⟨.tryRecv, _, by simp [keepsCalling], hstep (by simp only [streamStep, hp]; rfl)⟩
  · exact ⟨.check, _, by simp [keepsCalling], hstep ((if_pos hp).trans (if_pos hterm))⟩
  · -- it waits for a version it has not seen
    have hseen := (hinv.follows st (List.mem_of_getElem? hi)).waiting hp
    have hver := hinv.version.mp hterm
    refine ⟨.changed, _, by simp [keepsCalling], hstep (if_pos ⟨hp, ?_⟩)⟩
    omega
  · exact ⟨.tryRecv, _, by simp [keepsCalling], hstep (by simp only [streamStep, hp]; rfl)⟩

/-! ### The contract -/

/-- What a subscriber can rely on: values come in order and only what the
channel dropped is missing; the end comes after everything sent before the
finish; and a subscription made after the finish never waits. -/
structure Delivers (capacity : ℕ) (s : EventHub α) (st : EventStream α) : Prop where
  sound : st.rx.Sound capacity s.sent
  returned : st.returned.map some = st.rx.taken.map fun p => s.sent[p]?
  complete : st.ended = true → ∃ n, s.finishedAt = some n ∧
    ∀ p, st.rx.first ≤ p → p < n → p ∈ st.rx.taken ∨ p ∈ st.rx.skipped
  late : st.late = true → st.phase ≠ .waiting

theorem Follows.delivers (h : Follows capacity s st) : Delivers capacity s st where
  sound := h.sound
  returned := h.returned
  complete hend := by
    obtain ⟨n, hn, hle⟩ := h.ended hend
    exact ⟨n, hn, fun p hfirst hp => (h.sound.taken_iff p).mpr ⟨hfirst, hp.trans_le hle⟩⟩
  late hlate hp := by
    have hpos := h.late hlate
    rw [h.waiting hp] at hpos
    exact lt_irrefl 0 hpos

/-- **Event stream termination.**  In every run in which the finish is recorded
and overtakes no event of a stream that just found the channel empty, every
stream delivers; and after the finish a stream that is kept never waits, and a
subscriber that keeps calling `next` receives `None` after a number of steps
bounded by what is left to receive. -/
theorem event_stream_termination (capacity : ℕ) {s : EventHub α}
    (h : Reach (step capacity) Finishes (· = new) s) :
    (∀ st ∈ s.streams, Delivers capacity s st) ∧
      (s.finishedAt.isSome = true → ∀ (i : ℕ) (st : EventStream α), s.streams[i]? = some st →
        st.live = true →
        (∃ e s', keepsCalling i (.stream i e : HubEvent α) = true ∧
          s.step capacity (.stream i e) = some s') ∧
        ∀ es s', (∀ e ∈ es, keepsCalling i e = true) → runEvents (step capacity) s es = some s' →
          ∃ st', s'.streams[i]? = some st' ∧ (st'.ended = true ∨
            es.countP (isOwn i) ≤ rank s.sent st + 4 * es.countP isEmit)) := by
  have hinv : Inv capacity s :=
    Reach.invariant (fun s₀ h₀ => h₀ ▸ inv_new) (fun s₁ e s₂ h₁ hok hs => h₁.step hok hs) h
  refine ⟨fun st hst => (hinv.follows st hst).delivers, fun hfin i st hi hlive => ?_⟩
  have hterm := hinv.finished.mp hfin
  refine ⟨enabled_of_terminal hinv hterm hi hlive, fun es s' hkeeps hrun => ?_⟩
  obtain ⟨st', hi', -, hend⟩ := run_rank hterm hkeeps hi hlive hrun
  exact ⟨st', hi', hend.imp_right fun hle => (Nat.le_add_right _ _).trans hle⟩

instance decidableFinishes (s : EventHub α) : ∀ e, Decidable (s.Finishes e)
  | .finish => inferInstanceAs (Decidable (s.terminal = true ∨ s.listened = true ∧
      ∀ st ∈ s.streams, st.live = true → st.phase = .checking → st.rx.next = s.sent.length))
  | .emit _ | .subscribe | .stream _ _ => .isTrue trivial

/-- A subscriber waits, receives one event, and finds the end. -/
def awaited : List (HubEvent ℕ) :=
  [.stream 0 .next, .stream 0 .tryRecv, .stream 0 .check, .emit 7, .finish, .stream 0 .recv,
    .stream 0 .next, .stream 0 .tryRecv, .stream 0 .check]

/-- The stream delivers its event and ends. -/
theorem event_stream_termination_awaited :
    ∃ s st, runEvents (step 4) new awaited = some s ∧ s.streams[0]? = some st ∧
      st.ended = true ∧ st.returned = [7] ∧ Delivers 4 s st := by
  have hend : ((runEvents (step 4) new awaited).map fun s =>
      (s.streams[0]?).map fun st : EventStream ℕ => (st.ended, st.returned)) =
      some (some (true, [7])) := by
    rfl
  obtain ⟨s, hrun, hs⟩ := Option.map_eq_some_iff.mp hend
  obtain ⟨st, hst, hpair⟩ := Option.map_eq_some_iff.mp hs
  obtain ⟨hended, hreturned⟩ := Prod.mk.inj hpair
  have hreach : Reach (step 4) Finishes (· = new) s := .of_run (.start rfl) (by decide) hrun
  exact ⟨s, st, hrun, hst, hended, hreturned,
    (event_stream_termination 4 hreach).1 st (List.mem_of_getElem? hst)⟩

/-- An event is emitted and the hub finishes between the drain and the look at
the flag. -/
def overtaken : List (HubEvent ℕ) :=
  [.stream 0 .next, .stream 0 .tryRecv, .emit 7, .finish, .stream 0 .check]

/-- The hub finishes while nobody listens. -/
def unheard : List (HubEvent ℕ) :=
  [.stream 0 .drop, .finish, .subscribe, .stream 1 .next, .stream 1 .tryRecv, .stream 1 .check]

/-- The last event is lost to a subscriber that was told the end; and a
subscription made after a finish that nobody heard waits, with no step of its
own left. -/
theorem final_event_lost_and_finish_unheard :
    (∃ s st, Reach (step 4) (fun _ _ => True) (· = (new : EventHub ℕ)) s ∧
      s.streams[0]? = some st ∧ st.ended = true ∧ st.rx.first = 0 ∧ s.finishedAt = some 1 ∧
      0 ∉ st.rx.taken ∧ 0 ∉ st.rx.skipped) ∧
    ∃ s st, Reach (step 4) (fun _ _ => True) (· = (new : EventHub ℕ)) s ∧
      s.streams[1]? = some st ∧ st.late = true ∧ st.live = true ∧ st.phase = .waiting ∧
      s.step 4 (.stream 1 .recv) = none ∧ s.step 4 (.stream 1 .changed) = none := by
  constructor
  · have hend : ((runEvents (step 4) new overtaken).map fun s =>
        (s.streams[0]?.map fun st : EventStream ℕ =>
          (st.ended, st.rx.first, st.rx.taken, st.rx.skipped), s.finishedAt)) =
        some (some (true, 0, [], []), some 1) := by rfl
    obtain ⟨s, hrun, hs⟩ := Option.map_eq_some_iff.mp hend
    obtain ⟨hst, hfin⟩ := Prod.mk.inj hs
    obtain ⟨st, hst, hfields⟩ := Option.map_eq_some_iff.mp hst
    simp only [Prod.mk.injEq] at hfields
    obtain ⟨hended, hfirst, htaken, hskipped⟩ := hfields
    refine ⟨s, st, .of_run (.start rfl) runOk_true hrun, hst, hended, hfirst, hfin, ?_, ?_⟩
    · rw [htaken]
      exact List.not_mem_nil
    · rw [hskipped]
      exact List.not_mem_nil
  · have hend : ((runEvents (step 4) new unheard).map fun s =>
        (s.streams[1]?.map fun st : EventStream ℕ => (st.late, st.live, st.phase),
          s.step 4 (.stream 1 .recv), s.step 4 (.stream 1 .changed))) =
        some (some (true, true, .waiting), none, none) := by rfl
    obtain ⟨s, hrun, hs⟩ := Option.map_eq_some_iff.mp hend
    simp only [Prod.mk.injEq] at hs
    obtain ⟨hst, hrecv, hchanged⟩ := hs
    obtain ⟨st, hst, hfields⟩ := Option.map_eq_some_iff.mp hst
    simp only [Prod.mk.injEq] at hfields
    obtain ⟨hlate, hlive, hphase⟩ := hfields
    exact ⟨s, st, .of_run (.start rfl) runOk_true hrun, hst, hlate, hlive, hphase, hrecv, hchanged⟩

end EventHub

end KDown
