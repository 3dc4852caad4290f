/-
KDown/WriteExecutorAccept.lean

Every accepted write of the executor settles once (io/write_executor.rs).

A submit call reads the flag before it waits for the budget.  If the threads
leave in between, it still enqueues (`late_submit_lost`).  A shutdown that
finds no exit signals left clears the registry at once.  When some thread is
in its loop at every enqueueing, and the registry is cleared only when nothing
is queued, every accepted write gets one completion and gives its bytes back
once (`accepted_settles_once`).

What is queued has a thread awake, or a notification on its way
(`QueueInv.woken`): the threads run out of steps only when nothing is queued.
-/
import KDown.WriteExecutorSettle

namespace KDown

theorem WriterPhase.not_hasLeft_of_isAwake {ph : WriterPhase} (h : ph.isAwake = true) :
    ph.hasLeft = false := by
  cases ph <;> first | rfl | cases h

namespace WriteExecutor

variable {s s' : WriteExecutor} {w : ℕ}

/-! ### Who serves the queues -/

/-- A write is queued. -/
def HasQueued (s : WriteExecutor) : Prop := ∃ e ∈ s.sessions, e.queue ≠ []

/-- A write is queued only while some thread is in its loop, and the registry
is cleared only when nothing is queued. -/
def AcceptSafe (s : WriteExecutor) (e : ExecutorEvent) : Prop :=
  (∀ i < s.submitCount, e = .submitNext i → (s.submits i).phase = .enqueueing →
    (∃ x ∈ s.sessions, x.id = (s.submits i).session ∧ x.closed = false) →
      ∃ w < s.threads, (s.worker w).hasLeft = false) ∧
  ∀ j < s.shutdownCount, e = .shutdownNext j → s.shutdowns j = .clearing →
    ∀ x ∈ s.sessions, x.queue = []

instance (s : WriteExecutor) (e : ExecutorEvent) : Decidable (s.AcceptSafe e) :=
  inferInstanceAs (Decidable ((∀ i < s.submitCount, e = .submitNext i →
    (s.submits i).phase = .enqueueing →
      (∃ x ∈ s.sessions, x.id = (s.submits i).session ∧ x.closed = false) →
        ∃ w < s.threads, (s.worker w).hasLeft = false) ∧
    ∀ j < s.shutdownCount, e = .shutdownNext j → s.shutdowns j = .clearing →
      ∀ x ∈ s.sessions, x.queue = []))

/-- What is queued will be served. -/
structure QueueInv (s : WriteExecutor) : Prop where
  served : s.HasQueued → ∃ w < s.threads, (s.worker w).hasLeft = false
  woken : s.HasQueued →
    (∃ w, (s.worker w).isAwake = true) ∨ ∃ i, (s.submits i).phase = .notifying

theorem QueueInv.new (n m : ℕ) : QueueInv (new n m) where
  served := fun ⟨_, he, _⟩ => by cases he
  woken := fun ⟨_, he, _⟩ => by cases he

theorem awake_of_move {g : ℕ → WriterPhase} {ph : WriterPhase}
    (h : s'.worker = Function.update g w ph) (hph : ph.isAwake = true) :
    (s'.worker w).isAwake = true := by
  rw [h, Function.update_self]
  exact hph

/-- What a thread looks like after its step. -/
theorem ThreadStep.wakes (hi : ExecutorInv s) (h : ThreadStep s w s') :
    (s'.worker w).isAwake = true ∨ (∀ e ∈ s'.sessions, e.queue = []) ∨
      s.worker w = .exiting ∧ s' = s.setWorker w .gone := by
  cases h with
  | exit h hclosed hset => exact .inr (.inl fun e he => (hset e he).1)
  | park h => exact .inr (.inl fun e he => hi.drained w (by rw [h]; rfl) e he)
  | leave h => exact .inr (.inr ⟨h, rfl⟩)
  | _ => exact .inl (awake_of_move rfl rfl)

theorem ThreadStep.hasQueued (h : ThreadStep s w s') (hq : s'.HasQueued) : s.HasQueued := by
  obtain ⟨x, hx, hne⟩ := hq
  cases h with
  | @take index e item rest h he hq =>
    rcases List.mem_or_eq_of_mem_set hx with hin | rfl
    · exact ⟨x, hin, hne⟩
    · exact ⟨e, List.mem_of_getElem? he, by rw [hq]; exact List.cons_ne_nil _ _⟩
  | @settle id h hfree =>
    rcases countDown_cases s id with ⟨heq, -⟩ | ⟨index, e, he, -, heq⟩
    · rw [heq] at hx
      exact ⟨x, hx, hne⟩
    · rw [heq] at hx
      rcases List.mem_or_eq_of_mem_set hx with hin | rfl
      · exact ⟨x, hin, hne⟩
      · exact ⟨e, List.mem_of_getElem? he, hne⟩
  | _ => exact ⟨x, hx, hne⟩

/-- A thread leaves no write behind. -/
theorem QueueInv.thread (hqi : QueueInv s) (hi : ExecutorInv s) (hw : w < s.threads)
    (h : ThreadStep s w s') : QueueInv s' := by
  rcases h.wakes hi with hawake | hempty | ⟨hph, rfl⟩
  · refine ⟨fun _ => ⟨w, ?_, WriterPhase.not_hasLeft_of_isAwake hawake⟩, fun _ => .inl ⟨w, hawake⟩⟩
    rw [h.threads]
    exact hw
  · exact ⟨fun ⟨x, hx, hne⟩ => absurd (hempty x hx) hne, fun ⟨x, hx, hne⟩ => absurd (hempty x hx) hne⟩
  · -- another thread is still in its loop
    refine ⟨fun hq => ?_, fun hq => ?_⟩
    · obtain ⟨w', hlt, hleft⟩ := hqi.served hq
      refine ⟨w', hlt, ?_⟩
      show (Function.update s.worker w .gone w').hasLeft = false
      rw [Function.update_of_ne]
      · exact hleft
      · rintro rfl
        rw [hph] at hleft
        cases hleft
    · rcases hqi.woken hq with ⟨w', hawake⟩ | hnotify
      · refine .inl ⟨w', ?_⟩
        show (Function.update s.worker w .gone w').isAwake = true
        rw [Function.update_of_ne]
        · exact hawake
        · rintro rfl
          rw [hph] at hawake
          cases hawake
      · exact .inr hnotify

/-- Queues grow at an enqueueing only. -/
theorem CallStep.hasQueued {e : ExecutorEvent} (h : CallStep s e s') (hq : s'.HasQueued) :
    s.HasQueued ∨ ∃ i, e = .submitNext i ∧ (s.submits i).phase = .enqueueing ∧
      (∃ x ∈ s.sessions, x.id = (s.submits i).session ∧ x.closed = false) ∧
      (s'.submits i).phase = .notifying := by
  obtain ⟨x, hx, hne⟩ := hq
  cases h with
  | session job hfree h =>
    rcases List.mem_append.mp hx with hin | hin
    · exact .inl ⟨x, hin, hne⟩
    · rw [List.mem_singleton.mp hin] at hne
      exact absurd rfl hne
  | @enqueue i index e h hfree he hid hopen =>
    refine .inr ⟨i, rfl, h, ⟨e, List.mem_of_getElem? he, hid, hopen⟩, ?_⟩
    show (Function.update s.submits i _ i).phase = _
    rw [Function.update_self]
  | closeDiscard h hfree he hid =>
    rcases List.mem_or_eq_of_mem_set hx with hin | rfl
    · exact .inl ⟨x, hin, hne⟩
    · exact absurd rfl hne
  | @closeDrain d index e h hfree he hid =>
    rcases List.mem_or_eq_of_mem_set hx with hin | rfl
    · exact .inl ⟨x, hin, hne⟩
    · exact .inl ⟨e, List.mem_of_getElem? he, hne⟩
  | remove h => exact .inl ⟨x, List.mem_of_mem_filter hx, hne⟩
  | clear h => cases hx
  | _ => exact .inl ⟨x, hx, hne⟩

/-- A call that ends or moves on leaves the others alone. -/
theorem submits_update_phase {i k : ℕ} {ph ph' : SubmitPhase} {c : SubmitCall}
    (hk : (s.submits k).phase = ph) (hi : (s.submits i).phase = ph') (hne : ph' ≠ ph) :
    (Function.update s.submits i c k).phase = ph := by
  rw [Function.update_of_ne]
  · exact hk
  · rintro rfl
    exact hne (hi.symm.trans hk)

/-- A call in its last two phases moves on by its notification only. -/
theorem CallStep.notifying (hc : CallInv s) {e : ExecutorEvent} (h : CallStep s e s') {k : ℕ}
    {ph : SubmitPhase} (hph : ph = .notifying ∨ ph = .accepted) (hk : (s.submits k).phase = ph) :
    (s'.submits k).phase = ph ∨ ph = .notifying ∧ ((∃ w, e = .submitNotify k (some w) ∧
      (s'.worker w).isAwake = true) ∨ (e = .submitNotify k none ∧
        ∀ w < s.threads, s.worker w ≠ .parked)) := by
  have hother : ∀ {i : ℕ} {ph' : SubmitPhase} {c : SubmitCall}, (s.submits i).phase = ph' →
      ph' ≠ .notifying → ph' ≠ .accepted → (Function.update s.submits i c k).phase = ph := by
    intro i ph' c hi hnot hacc
    refine submits_update_phase hk hi fun heq => ?_
    rcases hph with rfl | rfl
    · exact hnot heq
    · exact hacc heq
  cases h with
  | submit id write h =>
    refine .inl ?_
    show (Function.update s.submits s.submitCount _ k).phase = ph
    rw [Function.update_of_ne]
    · exact hk
    · rintro rfl
      have hunused := hc.submits s.submitCount le_rfl
      rw [hk] at hunused
      rcases hph with rfl | rfl <;> cases hunused
  | reject h => exact .inl (hother h (fun hno => by cases hno) (fun hno => by cases hno))
  | begin h _ => exact .inl (hother h (fun hno => by cases hno) (fun hno => by cases hno))
  | acquire h => exact .inl (hother h (fun hno => by cases hno) (fun hno => by cases hno))
  | enqueue h _ _ _ _ => exact .inl (hother h (fun hno => by cases hno) (fun hno => by cases hno))
  | refuse h => exact .inl (hother h (fun hno => by cases hno) (fun hno => by cases hno))
  | refund h => exact .inl (hother h (fun hno => by cases hno) (fun hno => by cases hno))
  | cancelSubmit h => exact .inl (hother h (fun hno => by cases hno) (fun hno => by cases hno))
  | @notifyNobody i h hno =>
    by_cases hki : k = i
    · subst hki
      obtain rfl : ph = .notifying := hk.symm.trans h
      exact .inr ⟨rfl, .inr ⟨rfl, hno⟩⟩
    · exact .inl ((congrArg SubmitCall.phase (Function.update_of_ne hki _ _)).trans hk)
  | @notifyOne i w h hw hparked =>
    by_cases hki : k = i
    · subst hki
      obtain rfl : ph = .notifying := hk.symm.trans h
      refine .inr ⟨rfl, .inl ⟨w, rfl, ?_⟩⟩
      show (Function.update s.worker w .waking w).isAwake = true
      rw [Function.update_self]
      rfl
    · exact .inl ((congrArg SubmitCall.phase (Function.update_of_ne hki _ _)).trans hk)
  | _ => exact .inl hk

theorem Quiet.hasLeft (h : Quiet s s') (w : ℕ) : (s'.worker w).hasLeft = (s.worker w).hasLeft := by
  rcases h.woken w with hsame | ⟨hold, hnew⟩
  · rw [hsame]
  · rw [hold, hnew]
    rfl

/-- A woken thread is awake, and nobody else falls asleep. -/
theorem Quiet.isAwake (h : Quiet s s') (hw : (s.worker w).isAwake = true) :
    (s'.worker w).isAwake = true := by
  rcases h.woken w with hsame | ⟨-, hnew⟩
  · rw [hsame]
    exact hw
  · rw [hnew]
    rfl

/-- A write is accepted while a thread is there to take it. -/
theorem QueueInv.call (hqi : QueueInv s) (hi : ExecutorInv s) (hc : CallInv s) {e : ExecutorEvent}
    (h : CallStep s e s') (hok : s.AcceptSafe e) : QueueInv s' := by
  have hq := h.quiet hi
  have hkeep : (∃ w < s.threads, (s.worker w).hasLeft = false) →
      ∃ w < s'.threads, (s'.worker w).hasLeft = false := by
    rintro ⟨w, hlt, hleft⟩
    refine ⟨w, ?_, ?_⟩
    · rw [hq.threads]
      exact hlt
    · rw [hq.hasLeft]
      exact hleft
  refine ⟨fun hqueued => hkeep ?_, fun hqueued => ?_⟩
  · rcases h.hasQueued hqueued with hold | ⟨i, rfl, hph, hopen, -⟩
    · exact hqi.served hold
    · exact hok.1 i (hc.lt_submit hph (fun hno => by cases hno)) rfl hph hopen
  · rcases h.hasQueued hqueued with hold | ⟨i, -, -, -, hnotify⟩
    · rcases hqi.woken hold with ⟨w, hawake⟩ | ⟨k, hk⟩
      · exact .inl ⟨w, hq.isAwake hawake⟩
      · rcases h.notifying hc (.inl rfl) hk with hsame | ⟨-, ⟨w, -, hawake⟩ | ⟨-, hnobody⟩⟩
        · exact .inr ⟨k, hsame⟩
        · exact .inl ⟨w, hawake⟩
        · -- nobody is parked, so the thread in its loop is awake
          obtain ⟨w, hlt, hleft⟩ := hqi.served hold
          refine .inl ⟨w, hq.isAwake ?_⟩
          have hnot := hnobody w hlt
          rcases hph : s.worker w <;> rw [hph] at hleft hnot <;>
            first | rfl | cases hleft; done | exact absurd rfl hnot
    · exact .inr ⟨i, hnotify⟩

/-! ### Settling -/

/-- Everything that is known of a reachable executor. -/
structure AcceptInv (s : WriteExecutor) : Prop where
  executor : ExecutorInv s
  calls : CallInv s
  sessions : SessionInv s
  law : SettleLaw s
  queue : QueueInv s

theorem AcceptInv.new (n m : ℕ) : AcceptInv (new n m) :=
  ⟨.new n m, .new n m, .new n m, .new n m, .new n m⟩

/-- **The invariant is kept** when some thread will come back for what is
queued. -/
theorem AcceptInv.step (ha : AcceptInv s) {e : ExecutorEvent} (hok : s.AcceptSafe e)
    (h : s.step e = some s') : AcceptInv s' := by
  refine ⟨ha.executor.step h, ha.calls.step h, ha.sessions.step ha.executor ha.calls h, ?_, ?_⟩
  · rcases he : e.thread with - | w
    · refine ha.law.call ha.executor ha.calls ha.sessions (callStep_of_step he h) fun j hj hph => ?_
      exact hok.2 j (ha.calls.lt_shutdown hph (fun hno => by cases hno)) hj hph
    · obtain ⟨hw, hstep⟩ := threadStep_of_step he h
      exact ha.law.thread hw hstep
  · rcases he : e.thread with - | w
    · exact ha.queue.call ha.executor ha.calls (callStep_of_step he h) hok
    · obtain ⟨hw, hstep⟩ := threadStep_of_step he h
      exact ha.queue.thread ha.executor hw hstep

/-- Completions delivered for the write of call `i`. -/
def completions (s : WriteExecutor) (i : ℕ) : ℕ := s.delivered.countP fun d => d.1 = s.item i

/-- How often its bytes were released. -/
def releases (s : WriteExecutor) (i : ℕ) : ℕ := s.released.countP fun item => item = s.item i

/-- Counts the write of call `i`. -/
def isItem (s : WriteExecutor) (i : ℕ) (item : QueuedWrite) : ℕ :=
  if decide (item = s.item i) then 1 else 0

theorem answeredTotal_isItem (i : ℕ) : s.answeredTotal (s.isItem i) = s.completions i :=
  listTally_ite (fun d : QueuedWrite × WriteOutcome => decide (d.1 = s.item i)) s.delivered

theorem releasedTotal_isItem (i : ℕ) : s.releasedTotal (s.isItem i) = s.releases i :=
  listTally_ite (fun item : QueuedWrite => decide (item = s.item i)) s.released

theorem isItem_self (i : ℕ) : s.isItem i (s.submits i).item = 1 :=
  if_pos (decide_eq_true rfl)

/-- Writes of different calls are different. -/
theorem SessionInv.isItem_of_ne (hs : SessionInv s) {i k : ℕ} (hi : i < s.submitCount)
    (hk : k < s.submitCount) (hne : k ≠ i) : s.isItem i (s.submits k).item = 0 := by
  refine if_neg fun heq => hne ?_
  have hcall : (s.item k).call = (s.item i).call := congrArg QueuedWrite.call (of_decide_eq_true heq)
  rw [(hs.submits k hk).2, (hs.submits i hi).2] at hcall
  exact hcall

/-- The calls come to what call `i` itself comes to. -/
theorem SessionInv.tally_isItem (hs : SessionInv s) {i : ℕ} (hi : i < s.submitCount)
    {f : (QueuedWrite → ℕ) → SubmitCall → ℕ} (hf : ∀ g c, g c.item = 0 → f g c = 0) :
    tally s.submitCount (f (s.isItem i)) s.submits = f (s.isItem i) (s.submits i) :=
  tally_single hi fun _ hk hne => hf _ _ (hs.isItem_of_ne hi hk hne)

theorem accepted_zero (g : QueuedWrite → ℕ) (c : SubmitCall) (h : g c.item = 0) :
    SubmitCall.accepted g c = 0 := by
  rw [SubmitCall.accepted]
  split <;> first | exact h | rfl

theorem pending_zero (g : QueuedWrite → ℕ) (c : SubmitCall) (h : g c.item = 0) :
    SubmitCall.pending g c = 0 := by
  rw [SubmitCall.pending]
  split <;> first | exact h | rfl

theorem charged_zero (g : QueuedWrite → ℕ) (c : SubmitCall) (h : g c.item = 0) :
    SubmitCall.charged g c = 0 := by
  rw [SubmitCall.charged]
  split <;> first | exact h | rfl

/-- No write is answered twice, and no charge is released twice. -/
theorem AcceptInv.le_one (ha : AcceptInv s) {i : ℕ} (hi : i < s.submitCount) :
    s.completions i ≤ 1 ∧ s.releases i ≤ 1 := by
  have hcompletions := ha.law.completions (s.isItem i)
  have hcharges := ha.law.charges (s.isItem i)
  rw [answeredTotal_isItem, acceptedTotal, ha.sessions.tally_isItem hi accepted_zero] at hcompletions
  rw [releasedTotal_isItem, chargedTotal, ha.sessions.tally_isItem hi charged_zero] at hcharges
  have hself := isItem_self (s := s) i
  have haccepted : SubmitCall.accepted (s.isItem i) (s.submits i) ≤ 1 := by
    rw [SubmitCall.accepted]
    split <;> omega
  have hcharged : SubmitCall.charged (s.isItem i) (s.submits i) ≤ 1 := by
    rw [SubmitCall.charged]
    split <;> omega
  omega

/-- When the executor has no step of its own left, nothing is queued. -/
theorem AcceptInv.drained (ha : AcceptInv s) (hs : s.Stuck) : ∀ e ∈ s.sessions, e.queue = [] := by
  intro e he
  by_contra hne
  rcases ha.queue.woken ⟨e, he, hne⟩ with ⟨w, hawake⟩ | ⟨i, hi⟩
  · have hlt : w < s.threads := by
      by_contra hge
      rw [(ha.executor.absent w).mpr (not_lt.mp hge)] at hawake
      cases hawake
    rcases hs.parked_or_gone ha.executor hlt with hp | hg
    · rw [hp] at hawake
      cases hawake
    · rw [hg] at hawake
      cases hawake
  · -- the notification itself is still to be made
    by_cases hparked : ∃ w < s.threads, s.worker w = .parked
    · obtain ⟨w, hlt, hw⟩ := hparked
      have hnone : s.submitNotify i (some w) = none := hs (.submitNotify i (some w)) rfl
      rw [submitNotify, if_pos ⟨hi, hlt, hw⟩] at hnone
      cases hnone
    · have hnone : s.submitNotify i none = none := hs (.submitNotify i none) rfl
      rw [submitNotify, if_pos ⟨hi, fun w hlt hw => hparked ⟨w, hlt, hw⟩⟩] at hnone
      cases hnone

/-- **When everything has come to rest**, an accepted write is answered and
released once. -/
theorem AcceptInv.settled_once (ha : AcceptInv s) (hs : s.Stuck) {i : ℕ}
    (hph : (s.submits i).phase = .accepted) : s.completions i = 1 ∧ s.releases i = 1 := by
  have hi : i < s.submitCount := ha.calls.lt_submit hph (fun hno => by cases hno)
  have hqueued : s.queuedTotal (s.isItem i) = 0 := by
    refine listTally_eq_zero fun e he => ?_
    rw [ha.drained hs e he]
    rfl
  -- a thread that is parked or gone has no write
  have hhand : ∀ f : WriterPhase → ℕ, f .parked = 0 → f .gone = 0 → tally s.threads f s.worker = 0 := by
    intro f hparked hgone
    refine Finset.sum_eq_zero fun w hw => ?_
    rcases hs.parked_or_gone ha.executor (Finset.mem_range.mp hw) with h | h
    · rw [h, hparked]
    · rw [h, hgone]
  have hcompletions := ha.law.completions (s.isItem i)
  have hcharges := ha.law.charges (s.isItem i)
  rw [answeredTotal_isItem, acceptedTotal, ha.sessions.tally_isItem hi accepted_zero, hqueued,
    unansweredTotal, hhand _ rfl rfl] at hcompletions
  rw [releasedTotal_isItem, chargedTotal, ha.sessions.tally_isItem hi charged_zero, hqueued,
    unreleasedTotal, hhand _ rfl rfl, pendingTotal, ha.sessions.tally_isItem hi pending_zero]
    at hcharges
  have hself := isItem_self (s := s) i
  simp only [SubmitCall.accepted, SubmitCall.charged, SubmitCall.pending, hph] at hcompletions hcharges
  omega

/-- A call that has returned `Ok` has done so. -/
theorem accepted_of_run {es : List ExecutorEvent} (hc : CallInv s)
    (h : runEvents step s es = some s') {i : ℕ} (hph : (s.submits i).phase = .accepted) :
    (s'.submits i).phase = .accepted := by
  induction es generalizing s with
  | nil =>
    rw [← Option.some.inj h]
    exact hph
  | cons e es ih =>
    obtain ⟨t, ht, hrest⟩ := Option.bind_eq_some_iff.mp h
    refine ih (hc.step ht) hrest ?_
    rcases he : e.thread with - | w
    · rcases (callStep_of_step he ht).notifying hc (.inr rfl) hph with hsame | ⟨hno, -⟩
      · exact hsame
      · cases hno
    · rw [(threadStep_of_step he ht).2.calls.1]
      exact hph

theorem acceptSafe_of_own {e : ExecutorEvent} (h : e.isOwn = true) : s.AcceptSafe e := by
  refine ⟨fun i _ he => ?_, fun j _ he => ?_⟩
  · rw [he] at h
    cases h
  · rw [he] at h
    cases h

theorem AcceptInv.run (ha : AcceptInv s) {es : List ExecutorEvent}
    (hok : runOk WriteExecutor.step AcceptSafe s es)
    (h : runEvents WriteExecutor.step s es = some s') : AcceptInv s' := by
  induction es generalizing s with
  | nil =>
    rw [← Option.some.inj h]
    exact ha
  | cons e es ih =>
    obtain ⟨t, ht, hrest⟩ := Option.bind_eq_some_iff.mp h
    exact ih (ha.step hok.1 ht) (hok.2 t ht) hrest

/-- **Every accepted write settles once**, when no write is queued after the
last thread has left and no queued write is cleared away.  The executor's own
steps from any state come to an end, and whenever they have, after whatever
else happened in between, every write accepted before has got one completion
and its bytes back once.  It never gets more.  Nothing is queued when the
threads are gone. -/
theorem accepted_settles_once {n m : ℕ} (h : Reach step AcceptSafe (· = new n m) s) :
    (∀ i < s.submitCount, s.completions i ≤ 1 ∧ s.releases i ≤ 1) ∧
    (∀ es s', (∀ e ∈ es, e.isOwn = true) → runEvents step s es = some s' →
      runOk step AcceptSafe s es ∧ es.length ≤ s.fuel) ∧
    (∀ es s', runOk step AcceptSafe s es → runEvents step s es = some s' → s'.Stuck →
      ∀ i, (s.submits i).phase = .accepted → s'.completions i = 1 ∧ s'.releases i = 1) ∧
    ((∀ w < s.threads, s.worker w = .gone) → ∀ e ∈ s.sessions, e.queue = []) := by
  have ha : AcceptInv s :=
    h.invariant (fun _ hnew => hnew ▸ .new n m) fun _ _ _ ha hok hs => ha.step hok hs
  refine ⟨fun i hi => ha.le_one hi, fun es s' hown hrun => ⟨?_, ?_⟩,
    fun es s' hok hrun hstuck i hph => ?_, fun hgone e he => ?_⟩
  · exact runOk_of_forall fun e he _ => acceptSafe_of_own (hown e he)
  · exact (Nat.le_add_right _ _).trans (length_le_fuel ha.calls hown hrun)
  · exact (ha.run hok hrun).settled_once hstuck (accepted_of_run ha.calls hrun hph)
  · by_contra hne
    obtain ⟨w, hlt, hleft⟩ := ha.queue.served ⟨e, he, hne⟩
    rw [hgone w hlt] at hleft
    cases hleft

/-- It is enough to look at the threads started and the calls made. -/
theorem stuck_of_run {n m : ℕ} {es : List ExecutorEvent} (h : runEvents step (new n m) es = some s)
    (hworkers : ∀ w < s.threads, s.worker w = .parked ∨ s.worker w = .gone)
    (hsubmits : ∀ i < s.submitCount, (s.submits i).phase ≠ .notifying) : s.Stuck := by
  obtain ⟨hi, hc⟩ := inv_of_reach (.of_run (.start rfl) runOk_true h)
  intro e hown
  by_contra hne
  obtain ⟨t, ht⟩ := Option.ne_none_iff_exists'.mp hne
  rcases he : e.thread with - | w
  · cases callStep_of_step he ht with
    | notifyNobody hph _ => exact hsubmits _ (hc.lt_submit hph (fun hno => by cases hno)) hph
    | notifyOne hph _ _ => exact hsubmits _ (hc.lt_submit hph (fun hno => by cases hno)) hph
    | executorHandle he _ => rcases he with rfl | rfl <;> cases hown
    | sessionHandle he _ _ => rcases he with rfl | rfl <;> cases hown
    | _ => cases hown
  · obtain ⟨hw, hstep⟩ := threadStep_of_step he ht
    rcases hworkers w hw with hp | hg
    · cases hstep with
      | enter h _ => rcases h with h | h <;> rw [h] at hp <;> cases hp
      | _ => simp_all
    · exact hstep.not_gone hg

/-- A write is submitted, executed and answered, and the thread parks. -/
def servedRun : List ExecutorEvent :=
  [ExecutorEvent.session 0, .submit 0 ⟨0, 0, 0, 0, [7]⟩, .submitNext 0, .submitNext 0, .submitNext 0,
    .submitNotify 0 none, .work 0, .work 0, .execute 0 none] ++ List.replicate 8 (ExecutorEvent.work 0)

/-- The write is answered once and its bytes are released once. -/
theorem accepted_settles_once_servedRun :
    ∃ s, runEvents step (new 1 64) servedRun = some s ∧ (s.submits 0).phase = .accepted ∧
      s.completions 0 = 1 ∧ s.releases 0 = 1 := by
  have hok : runOk step AcceptSafe (new 1 64) servedRun := by decide +kernel
  have hrun : ∃ s ∈ runEvents step (new 1 64) servedRun, (s.submits 0).phase = .accepted ∧
      (∀ w < s.threads, s.worker w = .parked ∨ s.worker w = .gone) ∧
      ∀ i < s.submitCount, (s.submits i).phase ≠ .notifying := by decide +kernel
  obtain ⟨s, hs, hph, hworkers, hsubmits⟩ := hrun
  exact ⟨s, hs, hph, (accepted_settles_once (.of_run (.start rfl) hok hs)).2.2.1 [] s trivial rfl
    (stuck_of_run hs hworkers hsubmits) 0 hph⟩

/-- The submit call has passed the flag when the executor is shut down and its
thread leaves; then it enqueues. -/
def lateRun : List ExecutorEvent :=
  [ExecutorEvent.session 0, .submit 0 ⟨0, 0, 0, 0, [7]⟩, .submitNext 0, .shutdown, .shutdownNext 0,
    .shutdownNext 0] ++ List.replicate 4 (ExecutorEvent.work 0) ++
    [ExecutorEvent.submitNext 0, .submitNext 0, .submitNotify 0 none] ++
    List.replicate 4 (ExecutorEvent.shutdownNext 0)

/-- **A write accepted during a shutdown is lost**: nobody answers it. -/
theorem late_submit_lost :
    ∃ s, runEvents step (new 1 64) lateRun = some s ∧ (s.submits 0).phase = .accepted ∧
      s.shutdowns 0 = .returned ∧ s.Stuck ∧ s.completions 0 = 0 ∧ s.releases 0 = 0 := by
  have hrun : ∃ s ∈ runEvents step (new 1 64) lateRun, ((s.submits 0).phase = .accepted ∧
      s.shutdowns 0 = .returned ∧ s.completions 0 = 0 ∧ s.releases 0 = 0) ∧
      (∀ w < s.threads, s.worker w = .parked ∨ s.worker w = .gone) ∧
      ∀ i < s.submitCount, (s.submits i).phase ≠ .notifying := by decide +kernel
  obtain ⟨s, hs, ⟨hph, hreturned, hcompletions, hreleases⟩, hworkers, hsubmits⟩ := hrun
  exact ⟨s, hs, hph, hreturned, stuck_of_run hs hworkers hsubmits, hcompletions, hreleases⟩

end WriteExecutor

end KDown
