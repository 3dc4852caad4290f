/-
KDown/WriteExecutorSettle.lean

Where the writes of the executor and their bytes are (io/write_executor.rs).

A write is queued, in the hands of a thread, or answered, and nothing else
(`SettleLaw.completions`); its bytes are held by its call, by the queue or by
a thread, or they are released (`SettleLaw.charges`).  Both laws are stated
for an arbitrary weight of writes, so that they count calls as well as bytes.
-/
import KDown.WriteExecutorWake

namespace KDown

namespace WriterPhase

/-- The write the thread has not answered yet. -/
def unanswered (g : QueuedWrite → ℕ) : WriterPhase → ℕ
  | .executing _ item => g item
  | .sending _ item _ => g item
  | _ => 0

/-- The write whose bytes the thread has not released yet. -/
def unreleased (g : QueuedWrite → ℕ) : WriterPhase → ℕ
  | .executing _ item => g item
  | .sending _ item _ => g item
  | .releasing _ item => g item
  | _ => 0

/-- Out of the loop. -/
def hasLeft : WriterPhase → Bool
  | .exiting => true
  | .gone => true
  | .absent => true
  | _ => false

/-- In the loop and not asleep. -/
def isAwake : WriterPhase → Bool
  | .parked => false
  | ph => !ph.hasLeft

end WriterPhase

namespace SubmitCall

/-- The write has been queued. -/
def accepted (g : QueuedWrite → ℕ) (c : SubmitCall) : ℕ :=
  match c.phase with
  | .notifying => g c.item
  | .accepted => g c.item
  | _ => 0

/-- The call holds the bytes itself. -/
def pending (g : QueuedWrite → ℕ) (c : SubmitCall) : ℕ :=
  match c.phase with
  | .enqueueing => g c.item
  | .refunding => g c.item
  | _ => 0

/-- The call has taken its bytes from the budget. -/
def charged (g : QueuedWrite → ℕ) (c : SubmitCall) : ℕ :=
  match c.phase with
  | .enqueueing => g c.item
  | .refunding => g c.item
  | .notifying => g c.item
  | .accepted => g c.item
  | .refused => g c.item
  | _ => 0

end SubmitCall

namespace WriteExecutor

variable {s s' : WriteExecutor} {w : ℕ}

/-! ### Where writes are -/

section Totals

variable (s : WriteExecutor) (g : QueuedWrite → ℕ)

/-- What the queues hold. -/
def queuedTotal : ℕ := listTally (fun e : SessionEntry => listTally g e.queue) s.sessions

/-- What the writer threads have taken and not answered. -/
def unansweredTotal : ℕ := tally s.threads (WriterPhase.unanswered g) s.worker

/-- What the writer threads have taken and not released. -/
def unreleasedTotal : ℕ := tally s.threads (WriterPhase.unreleased g) s.worker

/-- What was answered. -/
def answeredTotal : ℕ := listTally (fun d : QueuedWrite × WriteOutcome => g d.1) s.delivered

/-- What the submissions have put into a queue. -/
def acceptedTotal : ℕ := tally s.submitCount (SubmitCall.accepted g) s.submits

/-- What the submissions have charged and neither queued nor given back. -/
def pendingTotal : ℕ := tally s.submitCount (SubmitCall.pending g) s.submits

/-- What the submissions have charged. -/
def chargedTotal : ℕ := tally s.submitCount (SubmitCall.charged g) s.submits

/-- What was released. -/
def releasedTotal : ℕ := listTally g s.released

end Totals

/-- Every write accepted is queued, in work or answered, and every byte charged
is held or released. -/
structure SettleLaw (s : WriteExecutor) : Prop where
  completions : ∀ g, s.queuedTotal g + s.unansweredTotal g + s.answeredTotal g = s.acceptedTotal g
  charges : ∀ g, s.queuedTotal g + s.unreleasedTotal g + s.pendingTotal g + s.releasedTotal g
    = s.chargedTotal g
  budget : s.outstanding + s.releasedTotal QueuedWrite.bytes = s.chargedTotal QueuedWrite.bytes

theorem SettleLaw.new (n m : ℕ) : SettleLaw (new n m) := by
  have hzero : ∀ f : WriterPhase → ℕ, f .entering = 0 → f .absent = 0 →
      tally (WriteExecutor.new n m).threads f (WriteExecutor.new n m).worker = 0 := by
    intro f hentering habsent
    refine Finset.sum_eq_zero fun w _ => ?_
    show f (if w < max n 1 then .entering else .absent) = 0
    split_ifs
    · exact hentering
    · exact habsent
  refine ⟨fun g => ?_, fun g => ?_, rfl⟩
  · rw [unansweredTotal, hzero (WriterPhase.unanswered g) rfl rfl]
    rfl
  · rw [unreleasedTotal, hzero (WriterPhase.unreleased g) rfl rfl]
    rfl

/-- Nothing moves. -/
theorem SettleLaw.congr (h : SettleLaw s) (hqueued : ∀ g, s'.queuedTotal g = s.queuedTotal g)
    (hunanswered : ∀ g, s'.unansweredTotal g = s.unansweredTotal g)
    (hunreleased : ∀ g, s'.unreleasedTotal g = s.unreleasedTotal g)
    (hdelivered : s'.delivered = s.delivered) (hreleased : s'.released = s.released)
    (haccepted : ∀ g, s'.acceptedTotal g = s.acceptedTotal g)
    (hpending : ∀ g, s'.pendingTotal g = s.pendingTotal g)
    (hcharged : ∀ g, s'.chargedTotal g = s.chargedTotal g)
    (houtstanding : s'.outstanding = s.outstanding) : SettleLaw s' := by
  refine ⟨fun g => ?_, fun g => ?_, ?_⟩
  · rw [hqueued, hunanswered, answeredTotal, hdelivered, haccepted]
    exact h.completions g
  · rw [hqueued, hunreleased, hpending, releasedTotal, hreleased, hcharged]
    exact h.charges g
  · rw [houtstanding, releasedTotal, hreleased, hcharged]
    exact h.budget

/-- The budget covers whatever is held of it. -/
theorem SettleLaw.outstanding_eq (h : SettleLaw s) :
    s.outstanding = s.queuedTotal QueuedWrite.bytes + s.unreleasedTotal QueuedWrite.bytes
      + s.pendingTotal QueuedWrite.bytes := by
  have hcharges := h.charges QueuedWrite.bytes
  have hbudget := h.budget
  omega

/-! ### Threads -/

/-- A thread moves on without touching a write. -/
theorem SettleLaw.move (h : SettleLaw s) (hw : w < s.threads) (ph : WriterPhase)
    (hworker : s'.worker = Function.update s.worker w ph) (hthreads : s'.threads = s.threads)
    (hqueued : ∀ g, s'.queuedTotal g = s.queuedTotal g) (hdelivered : s'.delivered = s.delivered)
    (hreleased : s'.released = s.released) (hsubmits : s'.submits = s.submits)
    (hcount : s'.submitCount = s.submitCount) (houtstanding : s'.outstanding = s.outstanding)
    (hunanswered : ∀ g, ph.unanswered g = (s.worker w).unanswered g)
    (hunreleased : ∀ g, ph.unreleased g = (s.worker w).unreleased g) : SettleLaw s' := by
  refine h.congr hqueued (fun g => ?_) (fun g => ?_) hdelivered hreleased ?_ ?_ ?_ houtstanding
  · have htally := tally_update hw (WriterPhase.unanswered g) s.worker ph
    rw [hunanswered g] at htally
    rw [unansweredTotal, hworker, hthreads]
    exact Nat.add_right_cancel htally
  · have htally := tally_update hw (WriterPhase.unreleased g) s.worker ph
    rw [hunreleased g] at htally
    rw [unreleasedTotal, hworker, hthreads]
    exact Nat.add_right_cancel htally
  · intro g
    rw [acceptedTotal, hsubmits, hcount]
    rfl
  · intro g
    rw [pendingTotal, hsubmits, hcount]
    rfl
  · intro g
    rw [chargedTotal, hsubmits, hcount]
    rfl

theorem queuedTotal_countDown (id : ℕ) (g : QueuedWrite → ℕ) :
    (s.countDown id).queuedTotal g = s.queuedTotal g := by
  rcases countDown_cases s id with ⟨heq, -⟩ | ⟨index, e, he, -, heq⟩
  · rw [heq]
  · rw [heq]
    have htally := listTally_set he (fun e : SessionEntry => listTally g e.queue)
      { e with executing := e.executing - 1 }
    exact Nat.add_right_cancel htally

/-- A write that is taken is no longer in the queue. -/
theorem SettleLaw.take (h : SettleLaw s) (hw : w < s.threads) {index : ℕ} {e : SessionEntry}
    {item : QueuedWrite} {rest : List QueuedWrite} (hph : s.worker w = .scanning)
    (he : s.sessions[index]? = some e) (hq : e.queue = item :: rest)
    (hworker : s'.worker = Function.update s.worker w (.executing e.id item))
    (hsessions : s'.sessions =
      s.sessions.set index { e with queue := rest, executing := e.executing + 1 })
    (hthreads : s'.threads = s.threads) (hdelivered : s'.delivered = s.delivered)
    (hreleased : s'.released = s.released) (hsubmits : s'.submits = s.submits)
    (hcount : s'.submitCount = s.submitCount) (houtstanding : s'.outstanding = s.outstanding) :
    SettleLaw s' := by
  have hqueued : ∀ g, s'.queuedTotal g + g item = s.queuedTotal g := by
    intro g
    have htally : _ + listTally g e.queue = s.queuedTotal g + listTally g rest :=
      listTally_set he (fun e : SessionEntry => listTally g e.queue)
        { e with queue := rest, executing := e.executing + 1 }
    rw [hq, listTally_cons] at htally
    rw [queuedTotal, hsessions]
    omega
  have hunanswered : ∀ g, s'.unansweredTotal g = s.unansweredTotal g + g item := by
    intro g
    have htally := tally_update hw (WriterPhase.unanswered g) s.worker (.executing e.id item)
    rw [hph] at htally
    rw [unansweredTotal, hworker, hthreads]
    exact htally
  have hunreleased : ∀ g, s'.unreleasedTotal g = s.unreleasedTotal g + g item := by
    intro g
    have htally := tally_update hw (WriterPhase.unreleased g) s.worker (.executing e.id item)
    rw [hph] at htally
    rw [unreleasedTotal, hworker, hthreads]
    exact htally
  refine ⟨fun g => ?_, fun g => ?_, ?_⟩
  · have hold := h.completions g
    have h₁ := hqueued g
    rw [hunanswered g, answeredTotal, hdelivered, acceptedTotal, hsubmits, hcount]
    rw [answeredTotal, acceptedTotal] at hold
    omega
  · have hold := h.charges g
    have h₁ := hqueued g
    rw [hunreleased g, releasedTotal, hreleased, pendingTotal, chargedTotal, hsubmits, hcount]
    rw [releasedTotal, pendingTotal, chargedTotal] at hold
    omega
  · rw [houtstanding, releasedTotal, hreleased, chargedTotal, hsubmits, hcount]
    exact h.budget

/-- **The completion is sent once**, by the thread that has the write. -/
theorem SettleLaw.send (h : SettleLaw s) (hw : w < s.threads) {id : ℕ} {item : QueuedWrite}
    {outcome : WriteOutcome} (hph : s.worker w = .sending id item outcome) :
    SettleLaw ((s.deliver item outcome).setWorker w (.releasing id item)) := by
  refine ⟨fun g => ?_, fun g => ?_, h.budget⟩
  · have htally := tally_update hw (WriterPhase.unanswered g) s.worker (.releasing id item)
    rw [hph] at htally
    have hhand : tally s.threads (WriterPhase.unanswered g)
        (Function.update s.worker w (.releasing id item)) + g item = s.unansweredTotal g := htally
    have hold := h.completions g
    show s.queuedTotal g + tally s.threads (WriterPhase.unanswered g)
        (Function.update s.worker w (.releasing id item)) +
          listTally (fun d : QueuedWrite × WriteOutcome => g d.1) (s.delivered ++ [(item, outcome)])
      = s.acceptedTotal g
    have hanswered : listTally (fun d : QueuedWrite × WriteOutcome => g d.1)
        (s.delivered ++ [(item, outcome)]) = s.answeredTotal g + g item := by
      rw [listTally_append, listTally_cons, listTally_nil]
      rfl
    omega
  · have htally := tally_update hw (WriterPhase.unreleased g) s.worker (.releasing id item)
    rw [hph] at htally
    have hhand : tally s.threads (WriterPhase.unreleased g)
        (Function.update s.worker w (.releasing id item)) = s.unreleasedTotal g :=
      Nat.add_right_cancel htally
    have hold := h.charges g
    show s.queuedTotal g + tally s.threads (WriterPhase.unreleased g)
        (Function.update s.worker w (.releasing id item)) + s.pendingTotal g + s.releasedTotal g
      = s.chargedTotal g
    rw [hhand]
    exact hold

/-- **Its bytes are released once**, behind the completion. -/
theorem SettleLaw.release (h : SettleLaw s) (hw : w < s.threads) {id : ℕ} {item : QueuedWrite}
    (hph : s.worker w = .releasing id item) :
    SettleLaw ((s.release item).setWorker w (.settling id)) := by
  have hhand : ∀ g, tally s.threads (WriterPhase.unreleased g)
      (Function.update s.worker w (.settling id)) + g item = s.unreleasedTotal g := by
    intro g
    have htally := tally_update hw (WriterPhase.unreleased g) s.worker (.settling id)
    rw [hph] at htally
    exact htally
  refine ⟨fun g => ?_, fun g => ?_, ?_⟩
  · have htally := tally_update hw (WriterPhase.unanswered g) s.worker (.settling id)
    rw [hph] at htally
    have hsame : tally s.threads (WriterPhase.unanswered g)
        (Function.update s.worker w (.settling id)) = s.unansweredTotal g :=
      Nat.add_right_cancel htally
    have hold := h.completions g
    show s.queuedTotal g + tally s.threads (WriterPhase.unanswered g)
        (Function.update s.worker w (.settling id)) + s.answeredTotal g = s.acceptedTotal g
    rw [hsame]
    exact hold
  · have hold := h.charges g
    have hless := hhand g
    show s.queuedTotal g + tally s.threads (WriterPhase.unreleased g)
        (Function.update s.worker w (.settling id)) + s.pendingTotal g
          + listTally g (s.released ++ [item]) = s.chargedTotal g
    rw [listTally_append, listTally_cons, listTally_nil]
    rw [releasedTotal] at hold
    omega
  · have hold := h.budget
    have hout := h.outstanding_eq
    have hless := hhand QueuedWrite.bytes
    show s.outstanding - item.bytes + listTally QueuedWrite.bytes (s.released ++ [item])
      = s.chargedTotal QueuedWrite.bytes
    rw [listTally_append, listTally_cons, listTally_nil]
    rw [releasedTotal] at hold
    omega

theorem SettleLaw.notifyAll (h : SettleLaw s) : SettleLaw s.notifyAll := by
  have hsame : ∀ f : WriterPhase → ℕ, f .waking = f .parked →
      tally s.threads f s.notifyAll.worker = tally s.threads f s.worker := by
    intro f hf
    refine tally_congr fun w _ => ?_
    rcases notifyAll_woken s w with heq | ⟨hold, hnew⟩
    · rw [heq]
    · rw [hold, hnew, hf]
  exact h.congr (fun _ => rfl) (fun _ => hsame _ rfl) (fun _ => hsame _ rfl) rfl rfl (fun _ => rfl)
    (fun _ => rfl) (fun _ => rfl) rfl

/-- The steps of the threads, one by one. -/
theorem SettleLaw.thread (h : SettleLaw s) (hw : w < s.threads) (hstep : ThreadStep s w s') :
    SettleLaw s' := by
  cases hstep with
  | enter hph hfree =>
    refine h.move hw .scanning rfl rfl (fun _ => rfl) rfl rfl rfl rfl rfl ?_ ?_
    · rcases hph with hph | hph <;> rw [hph] <;> exact fun _ => rfl
    · rcases hph with hph | hph <;> rw [hph] <;> exact fun _ => rfl
  | take hph he hq => exact h.take hw hph he hq rfl rfl rfl rfl rfl rfl rfl rfl
  | send hph => exact h.send hw hph
  | release hph => exact h.release hw hph
  | @settle id hph hfree =>
    obtain ⟨-, hthreads, hworker, hsubmits, hcount⟩ := countDown_frame (s := s) id
    have hrest : (s.countDown id).delivered = s.delivered ∧ (s.countDown id).released = s.released ∧
        (s.countDown id).outstanding = s.outstanding := by
      rcases countDown_cases s id with ⟨heq, -⟩ | ⟨index, e, -, -, heq⟩ <;> rw [heq] <;>
        exact ⟨rfl, rfl, rfl⟩
    refine h.move hw .announcing ?_ hthreads (queuedTotal_countDown id) hrest.1 hrest.2.1 hsubmits
      hcount hrest.2.2 ?_ ?_
    · show Function.update (s.countDown id).worker w _ = _
      rw [hworker]
    · rw [hph]
      exact fun _ => rfl
    · rw [hph]
      exact fun _ => rfl
  | broadcast hph =>
    have hph' : s.notifyAll.worker w = .broadcasting := by
      show (if s.worker w = .parked then WriterPhase.waking else s.worker w) = _
      rw [hph]
      rfl
    exact h.notifyAll.move hw .entering rfl rfl (fun _ => rfl) rfl rfl rfl rfl rfl
      (by rw [hph']; exact fun _ => rfl) (by rw [hph']; exact fun _ => rfl)
  | noWork hph _ =>
    exact h.move hw _ rfl rfl (fun _ => rfl) rfl rfl rfl rfl rfl (by rw [hph]; exact fun _ => rfl)
      (by rw [hph]; exact fun _ => rfl)
  | exit hph _ _ =>
    exact h.move hw _ rfl rfl (fun _ => rfl) rfl rfl rfl rfl rfl (by rw [hph]; exact fun _ => rfl)
      (by rw [hph]; exact fun _ => rfl)
  | stay hph _ =>
    exact h.move hw _ rfl rfl (fun _ => rfl) rfl rfl rfl rfl rfl (by rw [hph]; exact fun _ => rfl)
      (by rw [hph]; exact fun _ => rfl)
  | park hph =>
    exact h.move hw _ rfl rfl (fun _ => rfl) rfl rfl rfl rfl rfl (by rw [hph]; exact fun _ => rfl)
      (by rw [hph]; exact fun _ => rfl)
  | execute outcome hph =>
    exact h.move hw _ rfl rfl (fun _ => rfl) rfl rfl rfl rfl rfl (by rw [hph]; exact fun _ => rfl)
      (by rw [hph]; exact fun _ => rfl)
  | announce hph _ =>
    exact h.move hw _ rfl rfl (fun _ => rfl) rfl rfl rfl rfl rfl (by rw [hph]; exact fun _ => rfl)
      (by rw [hph]; exact fun _ => rfl)
  | goOn hph _ =>
    exact h.move hw _ rfl rfl (fun _ => rfl) rfl rfl rfl rfl rfl (by rw [hph]; exact fun _ => rfl)
      (by rw [hph]; exact fun _ => rfl)
  | leave hph =>
    exact h.move hw _ rfl rfl (fun _ => rfl) rfl rfl rfl rfl rfl (by rw [hph]; exact fun _ => rfl)
      (by rw [hph]; exact fun _ => rfl)

/-! ### Calls -/

theorem tally_submit {i : ℕ} (hi : i < s.submitCount) {ph : SubmitPhase}
    (h : (s.submits i).phase = ph) (f : SubmitCall → ℕ) (ph' : SubmitPhase) :
    tally s.submitCount f (Function.update s.submits i { s.submits i with phase := ph' })
        + f { s.submits i with phase := ph }
      = tally s.submitCount f s.submits + f { s.submits i with phase := ph' } := by
  have hsame : s.submits i = { s.submits i with phase := ph } := by rw [← h]
  have htally := tally_update hi f s.submits { s.submits i with phase := ph' }
  rw [← hsame]
  exact htally

/-- Somebody else acts, and no write is touched. -/
theorem SettleLaw.quiet (h : SettleLaw s) (hq : Quiet s s')
    (hqueued : ∀ g, s'.queuedTotal g = s.queuedTotal g) (hdelivered : s'.delivered = s.delivered)
    (hreleased : s'.released = s.released) (hsubmits : s'.submits = s.submits)
    (hcount : s'.submitCount = s.submitCount) (houtstanding : s'.outstanding = s.outstanding) :
    SettleLaw s' := by
  refine h.congr hqueued (fun _ => hq.tally rfl) (fun _ => hq.tally rfl) hdelivered hreleased
    ?_ ?_ ?_ houtstanding
  · intro g
    rw [acceptedTotal, hsubmits, hcount]
    rfl
  · intro g
    rw [pendingTotal, hsubmits, hcount]
    rfl
  · intro g
    rw [chargedTotal, hsubmits, hcount]
    rfl

/-- A submit call goes on without touching its write. -/
theorem SettleLaw.submitSame (h : SettleLaw s) (hq : Quiet s s') {i : ℕ} (hi : i < s.submitCount)
    {ph ph' : SubmitPhase} (hph : (s.submits i).phase = ph)
    (hsubmits : s'.submits = Function.update s.submits i { s.submits i with phase := ph' })
    (hcount : s'.submitCount = s.submitCount) (hsessions : s'.sessions = s.sessions)
    (hdelivered : s'.delivered = s.delivered) (hreleased : s'.released = s.released)
    (houtstanding : s'.outstanding = s.outstanding)
    (haccepted : ∀ g (c : SubmitCall), SubmitCall.accepted g { c with phase := ph }
      = SubmitCall.accepted g { c with phase := ph' })
    (hpending : ∀ g (c : SubmitCall), SubmitCall.pending g { c with phase := ph }
      = SubmitCall.pending g { c with phase := ph' })
    (hcharged : ∀ g (c : SubmitCall), SubmitCall.charged g { c with phase := ph }
      = SubmitCall.charged g { c with phase := ph' }) : SettleLaw s' := by
  refine h.congr (fun g => ?_) (fun _ => hq.tally rfl) (fun _ => hq.tally rfl) hdelivered hreleased
    (fun g => ?_) (fun g => ?_) (fun g => ?_) houtstanding
  · rw [queuedTotal, hsessions]
    rfl
  · have htally := tally_submit hi hph (SubmitCall.accepted g) ph'
    rw [haccepted g] at htally
    rw [acceptedTotal, hsubmits, hcount]
    exact Nat.add_right_cancel htally
  · have htally := tally_submit hi hph (SubmitCall.pending g) ph'
    rw [hpending g] at htally
    rw [pendingTotal, hsubmits, hcount]
    exact Nat.add_right_cancel htally
  · have htally := tally_submit hi hph (SubmitCall.charged g) ph'
    rw [hcharged g] at htally
    rw [chargedTotal, hsubmits, hcount]
    exact Nat.add_right_cancel htally

theorem SettleLaw.submit (h : SettleLaw s) (id : ℕ) (write : WriteSubmission) :
    SettleLaw { s.lend id with
      submits := Function.update s.submits s.submitCount
        ⟨id, ⟨s.submitCount, write, write.data.length⟩, .entering⟩
      submitCount := s.submitCount + 1 } :=
  h.congr (fun _ => rfl) (fun _ => rfl) (fun _ => rfl) rfl rfl
    (fun g => tally_succ s.submitCount (SubmitCall.accepted g) s.submits _)
    (fun g => tally_succ s.submitCount (SubmitCall.pending g) s.submits _)
    (fun g => tally_succ s.submitCount (SubmitCall.charged g) s.submits _) rfl

/-- A submission that gets its bytes holds them. -/
theorem SettleLaw.acquire (h : SettleLaw s) {i : ℕ} (hi : i < s.submitCount)
    (hph : (s.submits i).phase = .acquiring) :
    SettleLaw { s.setSubmit i .enqueueing with outstanding := s.outstanding + (s.item i).bytes } := by
  have haccepted : ∀ g, tally s.submitCount (SubmitCall.accepted g) (s.setSubmit i .enqueueing).submits
      = s.acceptedTotal g :=
    fun g => Nat.add_right_cancel (tally_submit hi hph (SubmitCall.accepted g) .enqueueing)
  have hpending : ∀ g, tally s.submitCount (SubmitCall.pending g) (s.setSubmit i .enqueueing).submits
      = s.pendingTotal g + g (s.item i) :=
    fun g => tally_submit hi hph (SubmitCall.pending g) .enqueueing
  have hcharged : ∀ g, tally s.submitCount (SubmitCall.charged g) (s.setSubmit i .enqueueing).submits
      = s.chargedTotal g + g (s.item i) :=
    fun g => tally_submit hi hph (SubmitCall.charged g) .enqueueing
  refine ⟨fun g => ?_, fun g => ?_, ?_⟩
  · exact (h.completions g).trans (haccepted g).symm
  · show s.queuedTotal g + s.unreleasedTotal g
      + tally s.submitCount (SubmitCall.pending g) (s.setSubmit i .enqueueing).submits
      + s.releasedTotal g
      = tally s.submitCount (SubmitCall.charged g) (s.setSubmit i .enqueueing).submits
    have hold := h.charges g
    rw [hpending, hcharged]
    omega
  · show s.outstanding + (s.item i).bytes + s.releasedTotal QueuedWrite.bytes
      = tally s.submitCount (SubmitCall.charged QueuedWrite.bytes) (s.setSubmit i .enqueueing).submits
    have hold := h.budget
    rw [hcharged]
    omega

/-- A write that is enqueued takes the bytes of its submission over. -/
theorem SettleLaw.enqueue (h : SettleLaw s) {i index : ℕ} {e : SessionEntry}
    (hi : i < s.submitCount) (hph : (s.submits i).phase = .enqueueing)
    (he : s.sessions[index]? = some e) :
    SettleLaw ((s.setSession index { e with queue := e.queue ++ [s.item i] }).setSubmit i
      .notifying) := by
  have haccepted : ∀ g, tally s.submitCount (SubmitCall.accepted g) (s.setSubmit i .notifying).submits
      = s.acceptedTotal g + g (s.item i) :=
    fun g => tally_submit hi hph (SubmitCall.accepted g) .notifying
  have hpending : ∀ g, tally s.submitCount (SubmitCall.pending g) (s.setSubmit i .notifying).submits
      + g (s.item i) = s.pendingTotal g :=
    fun g => tally_submit hi hph (SubmitCall.pending g) .notifying
  have hcharged : ∀ g, tally s.submitCount (SubmitCall.charged g) (s.setSubmit i .notifying).submits
      = s.chargedTotal g :=
    fun g => Nat.add_right_cancel (tally_submit hi hph (SubmitCall.charged g) .notifying)
  have hqueued : ∀ g, (s.setSession index { e with queue := e.queue ++ [s.item i] }).queuedTotal g
      = s.queuedTotal g + g (s.item i) := by
    intro g
    have htally : (s.setSession index { e with queue := e.queue ++ [s.item i] }).queuedTotal g
        + listTally g e.queue = s.queuedTotal g + listTally g (e.queue ++ [s.item i]) :=
      listTally_set he (fun e : SessionEntry => listTally g e.queue)
        { e with queue := e.queue ++ [s.item i] }
    rw [listTally_append, listTally_cons, listTally_nil] at htally
    omega
  refine ⟨fun g => ?_, fun g => ?_, h.budget.trans (hcharged _).symm⟩
  · show (s.setSession index { e with queue := e.queue ++ [s.item i] }).queuedTotal g
      + s.unansweredTotal g + s.answeredTotal g
      = tally s.submitCount (SubmitCall.accepted g) (s.setSubmit i .notifying).submits
    have hold := h.completions g
    rw [hqueued, haccepted]
    omega
  · show (s.setSession index { e with queue := e.queue ++ [s.item i] }).queuedTotal g
      + s.unreleasedTotal g
      + tally s.submitCount (SubmitCall.pending g) (s.setSubmit i .notifying).submits
      + s.releasedTotal g
      = tally s.submitCount (SubmitCall.charged g) (s.setSubmit i .notifying).submits
    have hold := h.charges g
    have hless := hpending g
    rw [hqueued, hcharged]
    omega

/-- A refused submission gives its bytes back. -/
theorem SettleLaw.refund (h : SettleLaw s) {i : ℕ} (hi : i < s.submitCount)
    (hph : (s.submits i).phase = .refunding) :
    SettleLaw ((s.release (s.item i)).endSubmit i .refused) := by
  have haccepted : ∀ g, tally s.submitCount (SubmitCall.accepted g) (s.setSubmit i .refused).submits
      = s.acceptedTotal g :=
    fun g => Nat.add_right_cancel (tally_submit hi hph (SubmitCall.accepted g) .refused)
  have hpending : ∀ g, tally s.submitCount (SubmitCall.pending g) (s.setSubmit i .refused).submits
      + g (s.item i) = s.pendingTotal g :=
    fun g => tally_submit hi hph (SubmitCall.pending g) .refused
  have hcharged : ∀ g, tally s.submitCount (SubmitCall.charged g) (s.setSubmit i .refused).submits
      = s.chargedTotal g :=
    fun g => Nat.add_right_cancel (tally_submit hi hph (SubmitCall.charged g) .refused)
  have hreleased : ∀ g, listTally g (s.released ++ [s.item i]) = s.releasedTotal g + g (s.item i) := by
    intro g
    rw [listTally_append, listTally_cons, listTally_nil]
    rfl
  refine ⟨fun g => (h.completions g).trans (haccepted g).symm, fun g => ?_, ?_⟩
  · show s.queuedTotal g + s.unreleasedTotal g
      + tally s.submitCount (SubmitCall.pending g) (s.setSubmit i .refused).submits
      + listTally g (s.released ++ [s.item i])
      = tally s.submitCount (SubmitCall.charged g) (s.setSubmit i .refused).submits
    have hold := h.charges g
    have hless := hpending g
    rw [hreleased, hcharged]
    omega
  · show s.outstanding - (s.item i).bytes + listTally QueuedWrite.bytes (s.released ++ [s.item i])
      = tally s.submitCount (SubmitCall.charged QueuedWrite.bytes) (s.setSubmit i .refused).submits
    have hold := h.budget
    have hout := h.outstanding_eq
    have hless := hpending QueuedWrite.bytes
    rw [hreleased, hcharged]
    omega

/-- **Detaching answers and releases what is queued.** -/
theorem SettleLaw.discard (h : SettleLaw s) {d index : ℕ} {e : SessionEntry}
    (he : s.sessions[index]? = some e) :
    SettleLaw (((s.discard e.queue).setSession index
      { e with closed := true, detached := true, queue := [] }).setDetach d .waiting) := by
  have hqueued : ∀ g, (s.setSession index
      { e with closed := true, detached := true, queue := [] }).queuedTotal g + listTally g e.queue
        = s.queuedTotal g :=
    fun g => listTally_set he (fun e : SessionEntry => listTally g e.queue)
      { e with closed := true, detached := true, queue := [] }
  have hanswered : ∀ g, listTally (fun d : QueuedWrite × WriteOutcome => g d.1)
      (s.delivered ++ e.queue.map fun item => (item, .discarded))
        = s.answeredTotal g + listTally g e.queue := by
    intro g
    rw [listTally_append]
    congr 1
    induction e.queue with
    | nil => rfl
    | cons item rest ih => rw [List.map_cons, listTally_cons, listTally_cons, ih]
  have hreleased : ∀ g, listTally g (s.released ++ e.queue)
      = s.releasedTotal g + listTally g e.queue := fun g => listTally_append g _ _
  refine ⟨fun g => ?_, fun g => ?_, ?_⟩
  · show (s.setSession index
        { e with closed := true, detached := true, queue := [] }).queuedTotal g + s.unansweredTotal g
      + listTally (fun d : QueuedWrite × WriteOutcome => g d.1)
        (s.delivered ++ e.queue.map fun item => (item, .discarded)) = s.acceptedTotal g
    have hold := h.completions g
    have hless := hqueued g
    rw [hanswered]
    omega
  · show (s.setSession index
        { e with closed := true, detached := true, queue := [] }).queuedTotal g + s.unreleasedTotal g
      + s.pendingTotal g + listTally g (s.released ++ e.queue) = s.chargedTotal g
    have hold := h.charges g
    have hless := hqueued g
    rw [hreleased]
    omega
  · show s.outstanding - listTally QueuedWrite.bytes e.queue
      + listTally QueuedWrite.bytes (s.released ++ e.queue) = s.chargedTotal QueuedWrite.bytes
    have hold := h.budget
    have hout := h.outstanding_eq
    have hless := hqueued QueuedWrite.bytes
    rw [hreleased]
    omega

/-- An event that is no thread's step keeps the laws, if the registry is only
cleared when nothing is queued. -/
theorem SettleLaw.call (h : SettleLaw s) (hi : ExecutorInv s) (hc : CallInv s) (hs : SessionInv s)
    {e : ExecutorEvent} (hstep : CallStep s e s')
    (hclear : ∀ j, e = .shutdownNext j → s.shutdowns j = .clearing → ∀ x ∈ s.sessions, x.queue = []) :
    SettleLaw s' := by
  have hq := hstep.quiet hi
  have hlt : ∀ {i : ℕ} {ph : SubmitPhase}, (s.submits i).phase = ph → ph ≠ .unused →
      i < s.submitCount := fun hph hne => hc.lt_submit hph hne
  cases hstep with
  | submit id write _ => exact h.submit id write
  | reject hph =>
    exact h.submitSame hq (hlt hph (fun hno => by cases hno)) hph rfl rfl rfl rfl rfl rfl
      (fun _ _ => rfl) (fun _ _ => rfl) (fun _ _ => rfl)
  | begin hph _ =>
    exact h.submitSame hq (hlt hph (fun hno => by cases hno)) hph rfl rfl rfl rfl rfl rfl
      (fun _ _ => rfl) (fun _ _ => rfl) (fun _ _ => rfl)
  | refuse hph =>
    exact h.submitSame hq (hlt hph (fun hno => by cases hno)) hph rfl rfl rfl rfl rfl rfl
      (fun _ _ => rfl) (fun _ _ => rfl) (fun _ _ => rfl)
  | notifyNobody hph _ =>
    exact h.submitSame hq (hlt hph (fun hno => by cases hno)) hph rfl rfl rfl rfl rfl rfl
      (fun _ _ => rfl) (fun _ _ => rfl) (fun _ _ => rfl)
  | notifyOne hph _ _ =>
    exact h.submitSame hq (hlt hph (fun hno => by cases hno)) hph rfl rfl rfl rfl rfl rfl
      (fun _ _ => rfl) (fun _ _ => rfl) (fun _ _ => rfl)
  | cancelSubmit hph =>
    exact h.submitSame hq (hlt hph (fun hno => by cases hno)) hph rfl rfl rfl rfl rfl rfl
      (fun _ _ => rfl) (fun _ _ => rfl) (fun _ _ => rfl)
  | acquire hph => exact h.acquire (hlt hph (fun hno => by cases hno)) hph
  | enqueue hph _ he _ _ => exact h.enqueue (hlt hph (fun hno => by cases hno)) hph he
  | refund hph => exact h.refund (hlt hph (fun hno => by cases hno)) hph
  | session job _ _ =>
    refine h.quiet hq (fun g => ?_) rfl rfl rfl rfl rfl
    show listTally (fun e : SessionEntry => listTally g e.queue) (s.sessions ++ [_]) = _
    rw [listTally_append, listTally_cons, listTally_nil]
    rfl
  | closeDiscard _ _ he _ => exact h.discard he
  | @closeDrain d index e _ _ he _ =>
    refine h.quiet hq (fun g => ?_) rfl rfl rfl rfl rfl
    have htally := listTally_set he (fun e : SessionEntry => listTally g e.queue)
      { e with closed := true, detached := true }
    exact Nat.add_right_cancel htally
  | @remove d hph =>
    -- the session that leaves has nothing queued
    have hleft := (hs.detaches d (hc.lt_detach hph (fun hno => by cases hno))).2.2 hph
    refine h.quiet hq (fun g => listTally_filter fun e he hp => ?_) rfl rfl rfl rfl rfl
    rw [hleft e he (by simpa using hp)]
    rfl
  | @clear j hph =>
    refine h.quiet hq (fun g => ?_) rfl rfl rfl rfl rfl
    refine (listTally_eq_zero fun e he => ?_).symm
    rw [hclear j rfl hph e he]
    rfl
  | _ => exact h.quiet hq (fun _ => rfl) rfl rfl rfl rfl rfl

end WriteExecutor

end KDown
