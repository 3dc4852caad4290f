/-
KDown/ReadIdle.lean

The read-idle timeout of a segmented worker (job/segmented.rs).

A worker waits for the next chunk in a `select` over `next_chunk`, the revision
signal and, on the pipelined path, the completions of its writes.  Each of the
other two wins by turning the loop, which drops the pending call of
`next_chunk` and makes a new one; and the idle deadline belongs to the call.

`stall_detected_iff` says when a stalled body is found all the same: the call
that is polled must be as old as the timeout.  `ticks_hide_stall` shows that it
never is when the revision signal comes more often than that.
-/
import KDown.HttpBody

namespace KDown

/-! ### The loop over the chunks -/

/-- Where a worker stands in the loop of `consume_legacy_body` or
`consume_pipelined_body`. -/
inductive WaitPhase
  /-- Before the checks at the top, and before the reservation for a chunk. -/
  | top
  | selecting (call : ReadCall)
  /-- `next_chunk` returned an event. -/
  | handling (event : BodyEvent)
  | failed (error : DownloadError)

/-- What can happen to the worker. -/
inductive WaitEvent
  /-- The checks at the top, and the `select` is entered. -/
  | enter (cancelled fatal : Bool)
  /-- The `select` polls the body. -/
  | pollBody (token : CancellationToken) (source : SourcePoll)
  /-- The revision signal wins the `select`. -/
  | changed (fatal : Bool)
  /-- A write completion wins the `select`. -/
  | completion (failure : Option DownloadError)
  /-- The event was handled and the loop goes on. -/
  | handled

/-- A write path and its timeout. -/
structure WaitConfig where
  timeout : ℕ
  pipelined : Bool

/-- One event of the loop, at a time. -/
def waitStep (cfg : WaitConfig) (s : WaitPhase) : ℕ × WaitEvent → Option WaitPhase
  | (_, .enter cancelled fatal) =>
      match s with
      | .top => some (if cancelled || fatal then .failed .cancelled else .selecting .new)
      | _ => none
  | (now, .pollBody token source) =>
      match s with
      | .selecting call =>
          match call.nextChunk cfg.timeout token source now with
          | (.pending _, call) => some (.selecting call)
          | (.ready (.ok event), _) => some (.handling event)
          | (.ready (.error e), _) => some (.failed e)
      | _ => none
  | (_, .changed fatal) =>
      match s with
      -- the call is dropped with its deadline
      | .selecting _ => some (if fatal then .failed .cancelled else .top)
      | _ => none
  | (_, .completion failure) =>
      match s with
      | .selecting _ =>
          if cfg.pipelined then
            match failure with
            | none => some .top
            | some e => some (.failed e)
          else none
      | _ => none
  | (_, .handled) =>
      match s with
      | .handling (.data _) | .handling .paused => some .top
      | _ => none

/-! ### Times of a history -/

/-- A history of events with their times. -/
abbrev WaitHistory := List (ℕ × WaitEvent)

/-- When the worker began to wait for the current chunk: the first time it
entered the `select` since the last event was handled. -/
def waitingSince : WaitHistory → Option ℕ :=
  List.foldl (fun since e =>
    match e with
    | (now, .enter _ _) => since.or (some now)
    | (_, .handled) => none
    | _ => since) none

/-- When the body was first polled since the `select` was last entered. -/
def polledSince : WaitHistory → Option ℕ :=
  List.foldl (fun since e =>
    match e with
    | (now, .pollBody _ _) => since.or (some now)
    | (_, .enter _ _) => none
    | _ => since) none

theorem polledSince_append (es : WaitHistory) (e : ℕ × WaitEvent) :
    polledSince (es ++ [e]) =
      match e with
      | (now, .pollBody _ _) => (polledSince es).or (some now)
      | (_, .enter _ _) => none
      | _ => polledSince es := by
  simp only [polledSince, List.foldl_append, List.foldl_cons, List.foldl_nil]

/-- **Stalled reads are found.**  A poll of the body at least the timeout after
the worker began to wait, with no data and no interruption, fails with the
read-idle error. -/
def FindsStall (cfg : WaitConfig) (es : WaitHistory) : Prop :=
  ∀ pre now token post since, es = pre ++ (now, .pollBody token .pending) :: post →
    token.shouldStop = false → waitingSince pre = some since → since + cfg.timeout ≤ now →
    runEvents (waitStep cfg) .top (pre ++ [(now, .pollBody token .pending)]) =
      some (.failed readIdleError)

/-- Such a poll comes at least the timeout after the first one since the
`select` was last entered. -/
def NotRestarted (cfg : WaitConfig) (es : WaitHistory) : Prop :=
  ∀ pre now token post since, es = pre ++ (now, .pollBody token .pending) :: post →
    token.shouldStop = false → waitingSince pre = some since → since + cfg.timeout ≤ now →
    (polledSince pre).getD now + cfg.timeout ≤ now

/-! ### The deadline in force -/

variable {cfg : WaitConfig} {s s' : WaitPhase} {es : WaitHistory}

/-- The deadline of the call in the `select` was fixed when the body was first
polled after the `select` was entered. -/
def DeadlineSet (cfg : WaitConfig) (es : WaitHistory) (s : WaitPhase) : Prop :=
  ∀ call, s = .selecting call → call.deadline = (polledSince es).map (· + cfg.timeout)

theorem DeadlineSet.deadlineAt {call : ReadCall} (h : DeadlineSet cfg es (.selecting call))
    (now : ℕ) : call.deadlineAt cfg.timeout now = (polledSince es).getD now + cfg.timeout := by
  rw [ReadCall.deadlineAt, h call rfl]
  rcases polledSince es with - | polled <;> rfl

/-- The deadline stays the one that was fixed at the first poll. -/
theorem DeadlineSet.step {e : ℕ × WaitEvent} (h : DeadlineSet cfg es s)
    (hs : waitStep cfg s e = some s') : DeadlineSet cfg (es ++ [e]) s' := by
  obtain ⟨now, e⟩ := e
  intro call hcall
  subst hcall
  rw [polledSince_append]
  cases e with
  | enter cancelled fatal =>
    simp only [waitStep] at hs
    split at hs
    · split_ifs at hs
      · cases hs
      · rw [← WaitPhase.selecting.inj (Option.some.inj hs)]
        rfl
    · cases hs
  | pollBody token source =>
    simp only [waitStep] at hs
    split at hs
    · rename_i before
      split at hs
      · rename_i wakers polled hpoll
        rw [← WaitPhase.selecting.inj (Option.some.inj hs)]
        -- the first poll fixes the deadline, later ones keep it
        have hdeadline : polled = ⟨some (before.deadlineAt cfg.timeout now)⟩ :=
          (congrArg Prod.snd hpoll).symm
        rw [hdeadline, h.deadlineAt now]
        rcases polledSince es with - | first <;> rfl
      · cases hs
      · cases hs
    · cases hs
  | changed fatal =>
    simp only [waitStep] at hs
    split at hs
    · split_ifs at hs <;> cases hs
    · cases hs
  | completion failure =>
    simp only [waitStep] at hs
    split at hs
    · split at hs
      · split at hs <;> cases hs
      · cases hs
    · cases hs
  | handled =>
    simp only [waitStep] at hs
    split at hs <;> cases hs

/-- A poll without data fails exactly if the call is as old as the timeout. -/
theorem pollBody_failed_iff {now : ℕ} {token : CancellationToken} (h : DeadlineSet cfg es s)
    (hs : waitStep cfg s (now, .pollBody token .pending) = some s')
    (hclear : token.shouldStop = false) :
    s' = .failed readIdleError ↔ (polledSince es).getD now + cfg.timeout ≤ now := by
  obtain ⟨hcancelled, hpaused⟩ := Bool.or_eq_false_iff.mp hclear
  simp only [waitStep] at hs
  split at hs
  · rename_i call
    rw [← h.deadlineAt now]
    simp only [ReadCall.nextChunk, pollStep, hcancelled, hpaused, Bool.false_eq_true,
      if_false] at hs
    by_cases hdue : call.deadlineAt cfg.timeout now ≤ now
    · simp only [hdue, if_true, Option.some.injEq] at hs
      simp [hdue, ← hs]
    · simp only [hdue, if_false, Option.some.injEq] at hs
      simp [hdue, ← hs]
  · cases hs

/-- **When stalls are found.**  Along every history of a worker that reads a
body: a poll at or past the timeout finds the stall, exactly if no turn of the
loop has made a new call within the last timeout before it. -/
theorem stall_detected_iff (cfg : WaitConfig) (es : WaitHistory)
    (hrun : (runEvents (waitStep cfg) .top es).isSome = true) :
    FindsStall cfg es ↔ NotRestarted cfg es := by
  refine forall_congr' fun pre => forall_congr' fun now => forall_congr' fun token =>
    forall_congr' fun post => forall_congr' fun since => forall_congr' fun hes => ?_
  refine forall_congr' fun hclear => forall_congr' fun _ => forall_congr' fun _ => ?_
  -- the history up to the poll, and the poll
  obtain ⟨last, hlast⟩ := Option.isSome_iff_exists.mp hrun
  rw [hes, runEvents_append] at hlast
  obtain ⟨s, hs, hrest⟩ := Option.bind_eq_some_iff.mp hlast
  obtain ⟨s', hpoll, -⟩ := Option.bind_eq_some_iff.mp hrest
  have hset : DeadlineSet cfg pre s := runEvents_invariant (I := DeadlineSet cfg)
    (by intro call hcall; cases hcall) (fun _ _ _ _ _ h hs => h.step hs) hs
  rw [← pollBody_failed_iff hset hpoll hclear, runEvents_append, hs]
  simp [runEvents, hpoll]

/-- A stall that nothing interrupts. -/
def quietStall : WaitHistory :=
  [(0, .enter false false), (0, .pollBody .new .pending), (30000, .pollBody .new .pending)]

/-- A body that stays silent is found out. -/
theorem stall_detected_quiet :
    (runEvents (waitStep ⟨30000, true⟩) .top quietStall).isSome = true ∧
      (FindsStall ⟨30000, true⟩ quietStall ↔ NotRestarted ⟨30000, true⟩ quietStall) :=
  ⟨rfl, stall_detected_iff _ _ rfl⟩

/-! ### Wakes without data -/

/-- The worker enters the `select` and polls a body that stays silent; after
`period` a checkpoint tick turns the loop. -/
def tickRound (period n : ℕ) : WaitHistory :=
  [(n * period, .enter false false), (n * period, .pollBody .new .pending),
    ((n + 1) * period, .pollBody .new .pending), ((n + 1) * period, .changed false)]

/-- So many rounds. -/
def tickRounds (period : ℕ) : ℕ → WaitHistory
  | 0 => []
  | n + 1 => tickRounds period n ++ tickRound period n

/-- Any number of such rounds ends where it began. -/
theorem tickRound_run {period : ℕ} (h : period < cfg.timeout) (n : ℕ) :
    runEvents (waitStep cfg) .top (tickRound period n) = some .top := by
  have hfirst : ¬ n * period + cfg.timeout ≤ n * period := by omega
  have hsecond : ¬ n * period + cfg.timeout ≤ (n + 1) * period := by
    rw [Nat.add_mul]
    omega
  simp [tickRound, runEvents, waitStep, ReadCall.nextChunk, ReadCall.deadlineAt, ReadCall.new,
    pollStep, CancellationToken.new, hfirst, hsecond]

/-- **Ticks hide a stall.**  A connection that delivers nothing is never given
up while the revision signal comes more often than the timeout. -/
theorem ticks_hide_stall (cfg : WaitConfig) {period : ℕ} (h : period < cfg.timeout) (n : ℕ) :
    runEvents (waitStep cfg) .top (tickRounds period n) = some .top := by
  induction n with
  | zero => rfl
  | succ n ih =>
    rw [tickRounds, runEvents_append, ih]
    exact tickRound_run h n

/-- With the default timeout of thirty seconds and a checkpoint tick every two,
a body that has been silent for thirty seconds is polled without an error. -/
theorem tick_extends_deadline :
    ¬ ∀ (cfg : WaitConfig) (es : WaitHistory),
      (runEvents (waitStep cfg) .top es).isSome = true → FindsStall cfg es := by
  intro h
  have hticks := ticks_hide_stall ⟨30000, true⟩ (by decide : 2000 < 30000) 15
  -- the worker enters the `select` once more, and polls
  have hlast : runEvents (waitStep ⟨30000, true⟩) .top ((tickRounds 2000 15 ++
      [(30000, .enter false false)]) ++ [(30000, .pollBody .new .pending)]) =
      some (.selecting ⟨some 60000⟩) := by
    rw [List.append_assoc, runEvents_append, hticks]
    rfl
  have hfound := h ⟨30000, true⟩ _ (by rw [hlast]; rfl) _ 30000 .new [] 0 rfl rfl rfl (by decide)
  rw [hlast] at hfound
  cases hfound

end KDown
