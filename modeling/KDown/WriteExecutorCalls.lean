/-
KDown/WriteExecutorCalls.lean

The calls on the write executor and the handles they hold.

Every call under way borrows or owns one handle, so a handle count of zero
means that no call is under way (`CallInv.lent_pos_shutdown` and its
siblings).
-/
import KDown.WriteExecutorInv

namespace KDown

/-- The submission has begun and not ended. -/
def SubmitPhase.isOpen : SubmitPhase → Bool
  | .entering => true
  | .acquiring => true
  | .enqueueing => true
  | .refunding => true
  | .notifying => true
  | _ => false

/-- The detachment has begun and not ended. -/
def DetachPhase.isOpen : DetachPhase → Bool
  | .closing => true
  | .waiting => true
  | .leaving => true
  | _ => false

/-- The shutdown has begun and not ended. -/
def ShutdownPhase.isOpen : ShutdownPhase → Bool
  | .storing => true
  | .notifying => true
  | .taking => true
  | .joining _ => true
  | .clearing => true
  | _ => false

/-- The closing notification of the call has been issued. -/
def ShutdownPhase.hasNotified : ShutdownPhase → Bool
  | .taking => true
  | .joining _ => true
  | .clearing => true
  | .returned => true
  | .cancelled => true
  | _ => false

theorem ShutdownPhase.hasStored_of_hasNotified {ph : ShutdownPhase} (h : ph.hasNotified = true) :
    ph.hasStored = true := by
  cases ph <;> first | rfl | cases h

namespace WriteExecutor

variable {s s' : WriteExecutor} {w : ℕ}

/-- One for an open submission. -/
def openSubmit (c : SubmitCall) : ℕ := if c.phase.isOpen then 1 else 0

/-- One for an open detachment. -/
def openDetach (c : DetachCall) : ℕ := if c.phase.isOpen then 1 else 0

/-- One for an open shutdown. -/
def openShutdown (ph : ShutdownPhase) : ℕ := if ph.isOpen then 1 else 0

/-- Calls are numbered in turn, and each one under way holds a handle. -/
structure CallInv (s : WriteExecutor) : Prop where
  submits : ∀ i, s.submitCount ≤ i → (s.submits i).phase = .unused
  detaches : ∀ d, s.detachCount ≤ d → (s.detaches d).phase = .unused
  shutdowns : ∀ j, s.shutdownCount ≤ j → s.shutdowns j = .unused
  lent : s.lent = tally s.submitCount openSubmit s.submits
    + tally s.detachCount openDetach s.detaches + tally s.shutdownCount openShutdown s.shutdowns

theorem CallInv.new (n m : ℕ) : CallInv (new n m) :=
  ⟨fun _ _ => rfl, fun _ _ => rfl, fun _ _ => rfl, rfl⟩

theorem CallInv.of_eq (hc : CallInv s) (h₁ : s'.submits = s.submits)
    (h₂ : s'.submitCount = s.submitCount) (h₃ : s'.detaches = s.detaches)
    (h₄ : s'.detachCount = s.detachCount) (h₅ : s'.shutdowns = s.shutdowns)
    (h₆ : s'.shutdownCount = s.shutdownCount) (h₇ : s'.lent = s.lent) : CallInv s' := by
  refine ⟨?_, ?_, ?_, ?_⟩
  · rw [h₁, h₂]
    exact hc.submits
  · rw [h₃, h₄]
    exact hc.detaches
  · rw [h₅, h₆]
    exact hc.shutdowns
  · rw [h₁, h₂, h₃, h₄, h₅, h₆, h₇]
    exact hc.lent

theorem CallInv.lt_submit (hc : CallInv s) {i : ℕ} {ph : SubmitPhase}
    (h : (s.submits i).phase = ph) (hne : ph ≠ .unused) : i < s.submitCount := by
  by_contra hge
  exact hne (h.symm.trans (hc.submits i (not_lt.mp hge)))

theorem CallInv.lt_detach (hc : CallInv s) {d : ℕ} {ph : DetachPhase}
    (h : (s.detaches d).phase = ph) (hne : ph ≠ .unused) : d < s.detachCount := by
  by_contra hge
  exact hne (h.symm.trans (hc.detaches d (not_lt.mp hge)))

theorem CallInv.lt_shutdown (hc : CallInv s) {j : ℕ} {ph : ShutdownPhase}
    (h : s.shutdowns j = ph) (hne : ph ≠ .unused) : j < s.shutdownCount := by
  by_contra hge
  exact hne (h.symm.trans (hc.shutdowns j (not_lt.mp hge)))

/-- Submit call `i` changes, and gives its handle back if it ends. -/
theorem CallInv.submit (hc : CallInv s) {i : ℕ} {c : SubmitCall} (hi : i < s.submitCount)
    (h₁ : s'.submits = Function.update s.submits i c) (h₂ : s'.submitCount = s.submitCount)
    (h₃ : s'.detaches = s.detaches) (h₄ : s'.detachCount = s.detachCount)
    (h₅ : s'.shutdowns = s.shutdowns) (h₆ : s'.shutdownCount = s.shutdownCount)
    (hlent : s'.lent + openSubmit (s.submits i) = s.lent + openSubmit c) : CallInv s' := by
  refine ⟨fun k hk => ?_, ?_, ?_, ?_⟩
  · rw [h₂] at hk
    rw [h₁, Function.update_of_ne (Nat.ne_of_gt (hi.trans_le hk))]
    exact hc.submits k hk
  · rw [h₃, h₄]
    exact hc.detaches
  · rw [h₅, h₆]
    exact hc.shutdowns
  · have htally := tally_update hi openSubmit s.submits c
    have hold := hc.lent
    rw [h₁, h₂, h₃, h₄, h₅, h₆]
    omega

theorem CallInv.detach (hc : CallInv s) {d : ℕ} {c : DetachCall} (hd : d < s.detachCount)
    (h₁ : s'.submits = s.submits) (h₂ : s'.submitCount = s.submitCount)
    (h₃ : s'.detaches = Function.update s.detaches d c) (h₄ : s'.detachCount = s.detachCount)
    (h₅ : s'.shutdowns = s.shutdowns) (h₆ : s'.shutdownCount = s.shutdownCount)
    (hlent : s'.lent + openDetach (s.detaches d) = s.lent + openDetach c) : CallInv s' := by
  refine ⟨?_, fun k hk => ?_, ?_, ?_⟩
  · rw [h₁, h₂]
    exact hc.submits
  · rw [h₄] at hk
    rw [h₃, Function.update_of_ne (Nat.ne_of_gt (hd.trans_le hk))]
    exact hc.detaches k hk
  · rw [h₅, h₆]
    exact hc.shutdowns
  · have htally := tally_update hd openDetach s.detaches c
    have hold := hc.lent
    rw [h₁, h₂, h₃, h₄, h₅, h₆]
    omega

/-- A shutdown goes on, and keeps or returns its handle. -/
theorem CallInv.shutdown (hc : CallInv s) {j : ℕ} {ph : ShutdownPhase} (hj : j < s.shutdownCount)
    (h₁ : s'.submits = s.submits) (h₂ : s'.submitCount = s.submitCount)
    (h₃ : s'.detaches = s.detaches) (h₄ : s'.detachCount = s.detachCount)
    (h₅ : s'.shutdowns = Function.update s.shutdowns j ph)
    (h₆ : s'.shutdownCount = s.shutdownCount)
    (hlent : s'.lent + openShutdown (s.shutdowns j) = s.lent + openShutdown ph) : CallInv s' := by
  refine ⟨?_, ?_, fun k hk => ?_, ?_⟩
  · rw [h₁, h₂]
    exact hc.submits
  · rw [h₃, h₄]
    exact hc.detaches
  · rw [h₆] at hk
    rw [h₅, Function.update_of_ne (Nat.ne_of_gt (hj.trans_le hk))]
    exact hc.shutdowns k hk
  · have htally := tally_update hj openShutdown s.shutdowns ph
    have hold := hc.lent
    rw [h₁, h₂, h₃, h₄, h₅, h₆]
    omega

/-- A call that is under way holds one of the lent handles. -/
theorem CallInv.lent_pos_submit (hc : CallInv s) {i : ℕ} (h : (s.submits i).phase.isOpen = true) :
    0 < s.lent := by
  have hi : i < s.submitCount := hc.lt_submit rfl (by rintro hno; rw [hno] at h; cases h)
  have hle := le_tally hi openSubmit s.submits
  rw [openSubmit, if_pos h] at hle
  have hold := hc.lent
  omega

theorem CallInv.lent_pos_detach (hc : CallInv s) {d : ℕ} (h : (s.detaches d).phase.isOpen = true) :
    0 < s.lent := by
  have hd : d < s.detachCount := hc.lt_detach rfl (by rintro hno; rw [hno] at h; cases h)
  have hle := le_tally hd openDetach s.detaches
  rw [openDetach, if_pos h] at hle
  have hold := hc.lent
  omega

/-- **An open shutdown holds one of the lent handles.** -/
theorem CallInv.lent_pos_shutdown (hc : CallInv s) {j : ℕ} (h : (s.shutdowns j).isOpen = true) :
    0 < s.lent := by
  have hj : j < s.shutdownCount := hc.lt_shutdown rfl (by rintro hno; rw [hno] at h; cases h)
  have hle := le_tally hj openShutdown s.shutdowns
  rw [openShutdown, if_pos h] at hle
  have hold := hc.lent
  omega

/-- Threads leave the calls alone. -/
theorem ThreadStep.calls (h : ThreadStep s w s') :
    s'.submits = s.submits ∧ s'.submitCount = s.submitCount ∧ s'.detaches = s.detaches ∧
      s'.detachCount = s.detachCount ∧ s'.shutdowns = s.shutdowns ∧
      s'.shutdownCount = s.shutdownCount ∧ s'.lent = s.lent := by
  cases h with
  | settle h hfree =>
    rcases countDown_cases s _ with ⟨heq, -⟩ | ⟨index, e, -, -, heq⟩ <;>
      rw [heq] <;> exact ⟨rfl, rfl, rfl, rfl, rfl, rfl, rfl⟩
  | _ => exact ⟨rfl, rfl, rfl, rfl, rfl, rfl, rfl⟩

theorem CallInv.endSubmit (hc : CallInv s) {i : ℕ} (hop : (s.submits i).phase.isOpen = true)
    {ph : SubmitPhase} (hph : ph.isOpen = false) : CallInv (s.endSubmit i ph) := by
  have hi : i < s.submitCount := hc.lt_submit rfl (by intro hno; rw [hno] at hop; cases hop)
  have hpos := hc.lent_pos_submit hop
  refine hc.submit hi rfl rfl rfl rfl rfl rfl ?_
  rw [openSubmit, openSubmit, if_pos hop, if_neg (by rw [hph]; exact Bool.false_ne_true)]
  show s.lent - 1 + 1 = s.lent + 0
  omega

/-- A submit call goes on. -/
theorem CallInv.submitNext (hc : CallInv s) {i : ℕ} {ph ph' : SubmitPhase}
    (h : (s.submits i).phase = ph) (hop : ph.isOpen = true) (hop' : ph'.isOpen = true)
    (h₁ : s'.submits = Function.update s.submits i { s.submits i with phase := ph' })
    (h₂ : s'.submitCount = s.submitCount) (h₃ : s'.detaches = s.detaches)
    (h₄ : s'.detachCount = s.detachCount) (h₅ : s'.shutdowns = s.shutdowns)
    (h₆ : s'.shutdownCount = s.shutdownCount) (h₇ : s'.lent = s.lent) : CallInv s' := by
  refine hc.submit (hc.lt_submit h ?_) h₁ h₂ h₃ h₄ h₅ h₆ ?_
  · rintro rfl
    cases hop
  · rw [h₇, openSubmit, openSubmit, h, if_pos hop, if_pos hop']

/-- A detach call goes on. -/
theorem CallInv.detachNext (hc : CallInv s) {d : ℕ} {ph ph' : DetachPhase}
    (h : (s.detaches d).phase = ph) (hop : ph.isOpen = true) (h₁ : s'.submits = s.submits)
    (h₂ : s'.submitCount = s.submitCount)
    (h₃ : s'.detaches = Function.update s.detaches d { s.detaches d with phase := ph' })
    (h₄ : s'.detachCount = s.detachCount) (h₅ : s'.shutdowns = s.shutdowns)
    (h₆ : s'.shutdownCount = s.shutdownCount)
    (h₇ : s'.lent = if ph'.isOpen then s.lent else s.lent - 1) : CallInv s' := by
  have hpos := hc.lent_pos_detach (d := d) (by rw [h]; exact hop)
  refine hc.detach (hc.lt_detach h ?_) h₁ h₂ h₃ h₄ h₅ h₆ ?_
  · rintro rfl
    cases hop
  · rw [h₇, openDetach, openDetach, h, if_pos hop]
    split_ifs <;> omega

/-- A shutdown call goes on. -/
theorem CallInv.shutdownNext (hc : CallInv s) {j : ℕ} {ph ph' : ShutdownPhase}
    (h : s.shutdowns j = ph) (hop : ph.isOpen = true) (h₁ : s'.submits = s.submits)
    (h₂ : s'.submitCount = s.submitCount) (h₃ : s'.detaches = s.detaches)
    (h₄ : s'.detachCount = s.detachCount) (h₅ : s'.shutdowns = Function.update s.shutdowns j ph')
    (h₆ : s'.shutdownCount = s.shutdownCount)
    (h₇ : s'.lent = if ph'.isOpen then s.lent else s.lent - 1) : CallInv s' := by
  have hpos := hc.lent_pos_shutdown (j := j) (by rw [h]; exact hop)
  refine hc.shutdown (hc.lt_shutdown h ?_) h₁ h₂ h₃ h₄ h₅ h₆ ?_
  · rintro rfl
    cases hop
  · rw [h₇, openShutdown, openShutdown, h, if_pos hop]
    split_ifs <;> omega

/-- The steps of the calls, one by one. -/
theorem CallStep.callInv (hc : CallInv s) {e : ExecutorEvent} (h : CallStep s e s') :
    CallInv s' := by
  cases h with
  | submit id write h =>
    refine ⟨fun i hi => ?_, hc.detaches, hc.shutdowns, ?_⟩
    · show (Function.update s.submits s.submitCount _ i).phase = _
      rw [Function.update_of_ne (Nat.ne_of_gt hi)]
      exact hc.submits i (Nat.le_of_succ_le hi)
    · have hold := hc.lent
      have hnew : tally (s.submitCount + 1) openSubmit _
          = tally s.submitCount openSubmit s.submits + 1 :=
        tally_succ s.submitCount openSubmit s.submits
          ⟨id, ⟨s.submitCount, write, write.data.length⟩, .entering⟩
      show s.lent + 1 = tally (s.submitCount + 1) openSubmit
          (Function.update s.submits s.submitCount
            ⟨id, ⟨s.submitCount, write, write.data.length⟩, .entering⟩)
        + tally s.detachCount openDetach s.detaches + tally s.shutdownCount openShutdown s.shutdowns
      omega
  | reject h => exact hc.endSubmit (by rw [h]; rfl) rfl
  | begin h hopen => exact hc.submitNext h rfl rfl rfl rfl rfl rfl rfl rfl rfl
  | acquire h => exact hc.submitNext h rfl rfl rfl rfl rfl rfl rfl rfl rfl
  | enqueue h hfree he hid hopen => exact hc.submitNext h rfl rfl rfl rfl rfl rfl rfl rfl rfl
  | refuse h => exact hc.submitNext h rfl rfl rfl rfl rfl rfl rfl rfl rfl
  | @refund i h =>
    have hrel : CallInv (s.release (s.item i)) := hc.of_eq rfl rfl rfl rfl rfl rfl rfl
    exact hrel.endSubmit (by show (s.submits i).phase.isOpen = true; rw [h]; rfl) rfl
  | notifyNobody h hno => exact hc.endSubmit (by rw [h]; rfl) rfl
  | @notifyOne i w h hw hparked =>
    have hset : CallInv (s.setWorker w .waking) := hc.of_eq rfl rfl rfl rfl rfl rfl rfl
    exact hset.endSubmit (by show (s.submits i).phase.isOpen = true; rw [h]; rfl) rfl
  | cancelSubmit h => exact hc.endSubmit (by rw [h]; rfl) rfl
  | detach id disposition h =>
    refine ⟨hc.submits, fun d hd => ?_, hc.shutdowns, ?_⟩
    · show (Function.update s.detaches s.detachCount _ d).phase = _
      rw [Function.update_of_ne (Nat.ne_of_gt hd)]
      exact hc.detaches d (Nat.le_of_succ_le hd)
    · have hold := hc.lent
      have hnew : tally (s.detachCount + 1) openDetach _
          = tally s.detachCount openDetach s.detaches + 1 :=
        tally_succ s.detachCount openDetach s.detaches ⟨id, disposition, .closing⟩
      show s.lent + 1 = tally s.submitCount openSubmit s.submits
        + tally (s.detachCount + 1) openDetach
          (Function.update s.detaches s.detachCount ⟨id, disposition, .closing⟩)
        + tally s.shutdownCount openShutdown s.shutdowns
      omega
  | closeAbsent h hnone => exact hc.detachNext h rfl rfl rfl rfl rfl rfl rfl rfl
  | closeDiscard h hfree he hid => exact hc.detachNext h rfl rfl rfl rfl rfl rfl rfl rfl
  | closeDrain h hfree he hid => exact hc.detachNext h rfl rfl rfl rfl rfl rfl rfl rfl
  | settled h hset => exact hc.detachNext h rfl rfl rfl rfl rfl rfl rfl rfl
  | remove h => exact hc.detachNext h rfl rfl rfl rfl rfl rfl rfl rfl
  | cancelDetach h => exact hc.detachNext h rfl rfl rfl rfl rfl rfl rfl rfl
  | shutdown h =>
    refine ⟨hc.submits, hc.detaches, fun j hj => ?_, ?_⟩
    · show Function.update s.shutdowns s.shutdownCount _ j = _
      rw [Function.update_of_ne (Nat.ne_of_gt hj)]
      exact hc.shutdowns j (Nat.le_of_succ_le hj)
    · have hold := hc.lent
      have hnew : tally (s.shutdownCount + 1) openShutdown _
          = tally s.shutdownCount openShutdown s.shutdowns + 1 :=
        tally_succ s.shutdownCount openShutdown s.shutdowns .storing
      show s.lent + 1 = tally s.submitCount openSubmit s.submits
        + tally s.detachCount openDetach s.detaches + tally (s.shutdownCount + 1) openShutdown
          (Function.update s.shutdowns s.shutdownCount .storing)
      omega
  | store h => exact hc.shutdownNext h rfl rfl rfl rfl rfl rfl rfl rfl
  | notify h => exact hc.shutdownNext h rfl rfl rfl rfl rfl rfl rfl rfl
  | takeExits h => exact hc.shutdownNext h rfl rfl rfl rfl rfl rfl rfl rfl
  | join h => exact hc.shutdownNext h rfl rfl rfl rfl rfl rfl rfl rfl
  | joined h => exact hc.shutdownNext h rfl rfl rfl rfl rfl rfl rfl rfl
  | clear h => exact hc.shutdownNext h rfl rfl rfl rfl rfl rfl rfl rfl
  | cancelShutdown h => exact hc.shutdownNext h rfl rfl rfl rfl rfl rfl rfl rfl
  | _ => exact hc.of_eq rfl rfl rfl rfl rfl rfl rfl

/-- **Each call under way keeps its handle.** -/
theorem CallInv.step (hc : CallInv s) {e : ExecutorEvent} (h : s.step e = some s') :
    CallInv s' := by
  rcases he : e.thread with - | w
  · exact (callStep_of_step he h).callInv hc
  · obtain ⟨h₁, h₂, h₃, h₄, h₅, h₆, h₇⟩ := (threadStep_of_step he h).2.calls
    exact hc.of_eq h₁ h₂ h₃ h₄ h₅ h₆ h₇

/-! ### Shutdown calls -/

/-- What an event that is no thread's step does to the shutdown calls. -/
theorem CallStep.shutdowns {e : ExecutorEvent} (h : CallStep s e s') :
    s'.shutdowns = s.shutdowns ∨
      s'.shutdowns = Function.update s.shutdowns s.shutdownCount .storing ∨
      ∃ j ph, s'.shutdowns = Function.update s.shutdowns j ph ∧ ph.hasStored = true ∧
        (ph.hasNotified = true → (s.shutdowns j).hasNotified = true ∨
          e = .shutdownNext j ∧ s.shutdowns j = .notifying) := by
  cases h with
  | shutdown h => exact .inr (.inl rfl)
  | @store j h => exact .inr (.inr ⟨j, .notifying, rfl, rfl, fun hn => by cases hn⟩)
  | @notify j h => exact .inr (.inr ⟨j, .taking, rfl, rfl, fun _ => .inr ⟨rfl, h⟩⟩)
  | @takeExits j h =>
    exact .inr (.inr ⟨j, .joining s.workerExits, rfl, rfl, fun _ => .inl (by rw [h]; rfl)⟩)
  | @join j w exits h =>
    exact .inr (.inr ⟨j, .joining exits, rfl, rfl, fun _ => .inl (by rw [h]; rfl)⟩)
  | @joined j h => exact .inr (.inr ⟨j, .clearing, rfl, rfl, fun _ => .inl (by rw [h]; rfl)⟩)
  | @clear j h => exact .inr (.inr ⟨j, .returned, rfl, rfl, fun _ => .inl (by rw [h]; rfl)⟩)
  | @cancelShutdown j exits h =>
    exact .inr (.inr ⟨j, .cancelled, rfl, rfl, fun _ => .inl (by rw [h]; rfl)⟩)
  | _ => exact .inl rfl

/-- A closing notification has been issued. -/
def Issued (s : WriteExecutor) : Prop := ∃ j, (s.shutdowns j).hasNotified = true

/-- A step of a caller issues no closing notification, but for a shutdown that
is about to. -/
theorem issued_of_step (hiss : s'.Issued) {e : ExecutorEvent} (he : e.thread = none)
    (h : s.step e = some s')
    (hno : ¬ ∃ j, e = .shutdownNext j ∧ s.shutdowns j = .notifying) : s.Issued := by
  obtain ⟨k, hk⟩ := hiss
  rcases (callStep_of_step he h).shutdowns with hsame | hnew | ⟨j, ph, hset, -, hnotified⟩
  · exact ⟨k, hsame ▸ hk⟩
  · refine ⟨k, ?_⟩
    rw [hnew] at hk
    by_cases hkj : k = s.shutdownCount
    · rw [hkj, Function.update_self] at hk
      cases hk
    · rwa [Function.update_of_ne hkj] at hk
  · rw [hset] at hk
    by_cases hkj : k = j
    · rw [hkj, Function.update_self] at hk
      rcases hnotified hk with hold | hclosing
      · exact ⟨j, hold⟩
      · exact absurd ⟨j, hclosing⟩ hno
    · rw [Function.update_of_ne hkj] at hk
      exact ⟨k, hk⟩

/-- A call that has set the flag has done so. -/
theorem hasStored_of_step (hc : CallInv s) {e : ExecutorEvent} (h : s.step e = some s') {k : ℕ}
    (hk : (s.shutdowns k).hasStored = true) : (s'.shutdowns k).hasStored = true := by
  rcases he : e.thread with - | w
  · rcases (callStep_of_step he h).shutdowns with hsame | hnew | ⟨j, ph, hset, hstored, -⟩
    · rw [hsame]
      exact hk
    · rw [hnew, Function.update_of_ne]
      · exact hk
      · rintro rfl
        rw [hc.shutdowns s.shutdownCount le_rfl] at hk
        cases hk
    · rw [hset]
      by_cases hkj : k = j
      · rw [hkj, Function.update_self]
        exact hstored
      · rwa [Function.update_of_ne hkj]
  · rw [(threadStep_of_step he h).2.calls.2.2.2.2.1]
    exact hk

/-! ### Sessions on their way out -/

/-- What happens to a closed session: it stays closed and its queue does not
grow. -/
def Follows (s s' : WriteExecutor) : Prop :=
  ∀ x ∈ s'.sessions, s.nextSessionId ≤ x.id ∨ ∃ e ∈ s.sessions, e.id = x.id ∧
    (e.closed = true → x.closed = true ∧ (e.queue = [] → x.queue = []))

theorem Follows.of_subset (h : ∀ x ∈ s'.sessions, x ∈ s.sessions) : Follows s s' :=
  fun x hx => .inr ⟨x, h x hx, rfl, fun hc => ⟨hc, id⟩⟩

theorem Follows.of_eq (h : s'.sessions = s.sessions) : Follows s s' :=
  .of_subset fun _ hx => h ▸ hx

theorem Follows.of_set {index : ℕ} {e e' : SessionEntry}
    (hsessions : s'.sessions = s.sessions.set index e') (he : s.sessions[index]? = some e)
    (hid : e'.id = e.id)
    (hc : e.closed = true → e'.closed = true ∧ (e.queue = [] → e'.queue = [])) : Follows s s' := by
  intro x hx
  rw [hsessions] at hx
  rcases List.mem_or_eq_of_mem_set hx with hin | rfl
  · exact .inr ⟨x, hin, rfl, fun hcl => ⟨hcl, id⟩⟩
  · exact .inr ⟨e, List.mem_of_getElem? he, hid.symm, hc⟩

theorem ThreadStep.follows (h : ThreadStep s w s') : Follows s s' := by
  cases h with
  | take h he hq =>
    refine .of_set rfl he rfl fun hc => ⟨hc, fun hnil => ?_⟩
    rw [hq] at hnil
    cases hnil
  | @settle id h hfree =>
    rcases countDown_cases s id with ⟨heq, -⟩ | ⟨index, e, he, -, heq⟩
    · rw [heq]
      exact .of_eq rfl
    · rw [heq]
      exact .of_set rfl he rfl fun hc => ⟨hc, fun hnil => hnil⟩
  | _ => exact .of_eq rfl

theorem CallStep.follows {e : ExecutorEvent} (h : CallStep s e s') : Follows s s' := by
  cases h with
  | session job hfree h =>
    intro x hx
    rcases List.mem_append.mp hx with hin | hin
    · exact .inr ⟨x, hin, rfl, fun hc => ⟨hc, id⟩⟩
    · rw [List.mem_singleton.mp hin]
      exact .inl le_rfl
  | enqueue h hfree he hid hopen =>
    refine .of_set rfl he rfl fun hc => ?_
    rw [hopen] at hc
    cases hc
  | closeDiscard h hfree he hid => exact .of_set rfl he rfl fun _ => ⟨rfl, fun _ => rfl⟩
  | closeDrain h hfree he hid => exact .of_set rfl he rfl fun _ => ⟨rfl, id⟩
  | remove h => exact .of_subset fun x hx => List.mem_of_mem_filter hx
  | clear h => exact .of_subset fun x hx => by cases hx
  | _ => exact .of_eq rfl

/-- A detach call past its first block has closed its session, and nothing is
queued there when it is about to leave. -/
def HasClosed (s : WriteExecutor) (c : DetachCall) : Prop :=
  (c.phase = .waiting ∨ c.phase = .leaving → ∀ e ∈ s.sessions, e.id = c.session → e.closed = true) ∧
    (c.phase = .leaving → ∀ e ∈ s.sessions, e.id = c.session → e.queue = [])

theorem HasClosed.follows {c : DetachCall} (h : HasClosed s c) (hf : Follows s s')
    (hlt : c.session < s.nextSessionId) : HasClosed s' c := by
  -- an entry of the session is not a new one
  have hold : ∀ x ∈ s'.sessions, x.id = c.session → ∃ e ∈ s.sessions, e.id = c.session ∧
      (e.closed = true → x.closed = true ∧ (e.queue = [] → x.queue = [])) := by
    intro x hx hid
    rcases hf x hx with hnew | ⟨e, he, heq, hkeep⟩
    · rw [hid] at hnew
      exact absurd hlt (not_lt.mpr hnew)
    · exact ⟨e, he, heq.trans hid, hkeep⟩
  refine ⟨fun hph x hx hid => ?_, fun hph x hx hid => ?_⟩
  · obtain ⟨e, he, heq, hkeep⟩ := hold x hx hid
    exact (hkeep (h.1 hph e he heq)).1
  · obtain ⟨e, he, heq, hkeep⟩ := hold x hx hid
    exact (hkeep (h.1 (.inr hph) e he heq)).2 (h.2 hph e he heq)

/-- A call that is not past its first block, or has ended. -/
theorem HasClosed.of_phase {c : DetachCall} (hwaiting : c.phase ≠ .waiting)
    (hleaving : c.phase ≠ .leaving) : HasClosed s c :=
  ⟨fun h => (h.elim hwaiting hleaving).elim, fun h => (hleaving h).elim⟩

/-- Calls refer to sessions that were attached. -/
structure SessionInv (s : WriteExecutor) : Prop where
  handles : ∀ id, s.nextSessionId ≤ id → s.sessionHandles id = 0
  submits : ∀ i < s.submitCount, (s.submits i).session < s.nextSessionId ∧ (s.item i).call = i
  detaches : ∀ d < s.detachCount,
    (s.detaches d).session < s.nextSessionId ∧ HasClosed s (s.detaches d)

theorem SessionInv.new (n m : ℕ) : SessionInv (new n m) where
  handles := fun _ _ => rfl
  submits := fun _ hi => absurd hi (Nat.not_lt_zero _)
  detaches := fun _ hd => absurd hd (Nat.not_lt_zero _)

/-- Nothing is attached, and what the calls are about stays. -/
theorem SessionInv.keep (hs : SessionInv s) (hf : Follows s s')
    (hnext : s'.nextSessionId = s.nextSessionId)
    (hhandles : ∀ id, s.nextSessionId ≤ id → s'.sessionHandles id = 0)
    (hcount : s'.submitCount = s.submitCount)
    (hsubmits : ∀ i, (s'.submits i).session = (s.submits i).session ∧ s'.item i = s.item i)
    (hdcount : s'.detachCount = s.detachCount)
    (hdetaches : ∀ d < s.detachCount, s'.detaches d = s.detaches d ∨
      (s'.detaches d).session = (s.detaches d).session ∧ HasClosed s' (s'.detaches d)) :
    SessionInv s' := by
  refine ⟨?_, fun i hi => ?_, fun d hd => ?_⟩
  · rw [hnext]
    exact hhandles
  · rw [hnext, (hsubmits i).1, (hsubmits i).2]
    exact hs.submits i (hcount ▸ hi)
  · rw [hdcount] at hd
    obtain ⟨hlt, hclosed⟩ := hs.detaches d hd
    rw [hnext]
    rcases hdetaches d hd with hsame | ⟨hses, hnew⟩
    · rw [hsame]
      exact ⟨hlt, hclosed.follows hf hlt⟩
    · rw [hses]
      exact ⟨hlt, hnew⟩

theorem session_setSubmit (i : ℕ) (ph : SubmitPhase) (k : ℕ) :
    ((s.setSubmit i ph).submits k).session = (s.submits k).session ∧
      (s.setSubmit i ph).item k = s.item k := by
  show (Function.update s.submits i _ k).session = _ ∧ (Function.update s.submits i _ k).item = _
  by_cases hk : k = i
  · subst hk
    rw [Function.update_self]
    exact ⟨rfl, rfl⟩
  · rw [Function.update_of_ne hk]
    exact ⟨rfl, rfl⟩

/-- A handle of an attached session changes hands. -/
theorem SessionInv.handles_update (hs : SessionInv s) {id : ℕ} (hlt : id < s.nextSessionId) (n : ℕ) :
    ∀ id', s.nextSessionId ≤ id' → Function.update s.sessionHandles id n id' = 0 := by
  intro id' hle
  rw [Function.update_of_ne (Nat.ne_of_gt (hlt.trans_le hle))]
  exact hs.handles id' hle

theorem SessionInv.lt_of_handle (hs : SessionInv s) {id : ℕ} (h : 0 < s.sessionHandles id) :
    id < s.nextSessionId := by
  by_contra hge
  rw [hs.handles id (not_lt.mp hge)] at h
  exact absurd h (lt_irrefl 0)

/-- A submit call ends. -/
theorem SessionInv.endSubmit (hs : SessionInv s) {i : ℕ} (hi : i < s.submitCount)
    (ph : SubmitPhase) : SessionInv (s.endSubmit i ph) :=
  hs.keep (.of_eq rfl) rfl (hs.handles_update (hs.submits i hi).1 _) rfl (session_setSubmit i ph) rfl
    fun _ _ => .inl rfl

/-- A detach call goes on. -/
theorem SessionInv.detachNext (hs : SessionInv s) (hf : Follows s s') {d : ℕ} {ph : DetachPhase}
    (hdetaches : s'.detaches = Function.update s.detaches d { s.detaches d with phase := ph })
    (hclosed : HasClosed s' { s.detaches d with phase := ph })
    (hnext : s'.nextSessionId = s.nextSessionId) (hhandles : s'.sessionHandles = s.sessionHandles)
    (hsubmits : s'.submits = s.submits) (hcount : s'.submitCount = s.submitCount)
    (hdcount : s'.detachCount = s.detachCount) : SessionInv s' := by
  refine hs.keep hf hnext (by rw [hhandles]; exact hs.handles) hcount (fun i => ?_) hdcount ?_
  · rw [item, hsubmits]
    exact ⟨rfl, rfl⟩
  · intro k _
    rw [hdetaches]
    by_cases hk : k = d
    · subst hk
      rw [Function.update_self]
      exact .inr ⟨rfl, hclosed⟩
    · rw [Function.update_of_ne hk]
      exact .inl rfl

/-- What an entry of the session looks like after it was replaced. -/
theorem ExecutorInv.closed_of_set (hi : ExecutorInv s) {index : ℕ} {e e' : SessionEntry} {id : ℕ}
    (he : s.sessions[index]? = some e) (hid : e.id = id) (hclosed : e'.closed = true)
    (hsessions : s'.sessions = s.sessions.set index e') :
    ∀ x ∈ s'.sessions, x.id = id → x.closed = true := by
  intro x hx hxid
  rcases hi.mem_set he (hsessions ▸ hx) with rfl | ⟨-, hne⟩
  · exact hclosed
  · exact absurd (hxid.trans hid.symm) hne

/-- The registry lookup finds the one entry of the session. -/
theorem ExecutorInv.mem_find (hi : ExecutorInv s) {e : SessionEntry} (he : e ∈ s.sessions) :
    e ∈ s.sessions.find? fun x : SessionEntry => x.id = e.id := by
  rcases hfind : s.sessions.find? (fun x : SessionEntry => x.id = e.id) with - | x
  · exact absurd rfl (of_decide_eq_false (Bool.of_not_eq_true (List.find?_eq_none.mp hfind e he)))
  · have hid : x.id = e.id := by simpa using List.find?_some hfind
    have hsame := List.inj_on_of_nodup_map hi.nodup (List.mem_of_find?_eq_some hfind) he hid
    rw [hsame]
    rfl

/-- The calls and the sessions they refer to. -/
theorem CallStep.sessionInv (hi : ExecutorInv s) (hc : CallInv s) (hs : SessionInv s)
    {e : ExecutorEvent} (h : CallStep s e s') : SessionInv s' := by
  have hf := h.follows
  cases h with
  | session job hfree h =>
    refine ⟨fun id hle => ?_, fun i hlt => ?_, fun d hlt => ?_⟩
    · show Function.update s.sessionHandles s.nextSessionId 1 id = 0
      rw [Function.update_of_ne (Nat.ne_of_gt hle)]
      exact hs.handles id (Nat.le_of_succ_le hle)
    · exact ⟨(hs.submits i hlt).1.trans (Nat.lt_succ_self _), (hs.submits i hlt).2⟩
    · obtain ⟨hid, hclosed⟩ := hs.detaches d hlt
      exact ⟨hid.trans (Nat.lt_succ_self _), hclosed.follows hf hid⟩
  | sessionHandle he h n =>
    exact hs.keep hf rfl (hs.handles_update (hs.lt_of_handle h) n) rfl (fun _ => ⟨rfl, rfl⟩) rfl
      fun _ _ => .inl rfl
  | submit id write h =>
    have hlt := hs.lt_of_handle h
    refine ⟨hs.handles_update hlt _, fun i hcount => ?_, fun d hd => ?_⟩
    · show (Function.update s.submits s.submitCount _ i).session < s.nextSessionId ∧
        (Function.update s.submits s.submitCount _ i).item.call = i
      by_cases heq : i = s.submitCount
      · subst heq
        rw [Function.update_self]
        exact ⟨hlt, rfl⟩
      · rw [Function.update_of_ne heq]
        exact hs.submits i (lt_of_le_of_ne (Nat.le_of_lt_succ hcount) heq)
    · obtain ⟨hid, hclosed⟩ := hs.detaches d hd
      exact ⟨hid, hclosed.follows hf hid⟩
  | detach id disposition h =>
    have hlt := hs.lt_of_handle h
    refine ⟨hs.handles_update hlt _, hs.submits, fun d hcount => ?_⟩
    show (Function.update s.detaches s.detachCount _ d).session < s.nextSessionId ∧
      HasClosed _ (Function.update s.detaches s.detachCount _ d)
    by_cases heq : d = s.detachCount
    · subst heq
      rw [Function.update_self]
      exact ⟨hlt, .of_phase (fun hno => by cases hno) (fun hno => by cases hno)⟩
    · rw [Function.update_of_ne heq]
      obtain ⟨hid, hclosed⟩ := hs.detaches d (lt_of_le_of_ne (Nat.le_of_lt_succ hcount) heq)
      exact ⟨hid, hclosed.follows hf hid⟩
  | reject h => exact hs.endSubmit (hc.lt_submit h (fun hno => by cases hno)) _
  | notifyNobody h hno => exact hs.endSubmit (hc.lt_submit h (fun hno => by cases hno)) _
  | cancelSubmit h => exact hs.endSubmit (hc.lt_submit h (fun hno => by cases hno)) _
  | @refund i h =>
    have hrel : SessionInv (s.release (s.item i)) :=
      hs.keep (.of_eq rfl) rfl hs.handles rfl (fun _ => ⟨rfl, rfl⟩) rfl fun _ _ => .inl rfl
    exact hrel.endSubmit (hc.lt_submit h (fun hno => by cases hno)) _
  | @notifyOne i w h hw hparked =>
    have hset : SessionInv (s.setWorker w .waking) :=
      hs.keep (.of_eq rfl) rfl hs.handles rfl (fun _ => ⟨rfl, rfl⟩) rfl fun _ _ => .inl rfl
    exact hset.endSubmit (hc.lt_submit h (fun hno => by cases hno)) _
  | begin h hopen => exact hs.keep hf rfl hs.handles rfl (session_setSubmit _ _) rfl fun _ _ => .inl rfl
  | acquire h => exact hs.keep hf rfl hs.handles rfl (session_setSubmit _ _) rfl fun _ _ => .inl rfl
  | enqueue h hfree he hid hopen =>
    exact hs.keep hf rfl hs.handles rfl (session_setSubmit _ _) rfl fun _ _ => .inl rfl
  | refuse h => exact hs.keep hf rfl hs.handles rfl (session_setSubmit _ _) rfl fun _ _ => .inl rfl
  | closeAbsent h hnone =>
    refine hs.detachNext hf rfl ⟨fun _ x hx hid => absurd hid (hnone x hx), ?_⟩ rfl rfl rfl rfl rfl
    intro hno
    cases hno
  | closeDiscard h hfree he hid =>
    refine hs.detachNext hf rfl ⟨fun _ => hi.closed_of_set he hid rfl rfl, ?_⟩ rfl rfl rfl rfl rfl
    intro hno
    cases hno
  | closeDrain h hfree he hid =>
    refine hs.detachNext hf rfl ⟨fun _ => hi.closed_of_set he hid rfl rfl, ?_⟩ rfl rfl rfl rfl rfl
    intro hno
    cases hno
  | @settled d h hset =>
    have hold := (hs.detaches d (hc.lt_detach h (fun hno => by cases hno))).2
    refine hs.detachNext hf rfl ⟨fun _ => hold.1 (.inl h), fun _ x hx hid => ?_⟩ rfl rfl rfl rfl rfl
    have hx' : x ∈ s.sessions := hx
    have hfind := hi.mem_find hx'
    rw [hid] at hfind
    exact (hset x hfind).1
  | remove h =>
    exact hs.detachNext hf rfl
      (.of_phase (fun hno => by cases hno) (fun hno => by cases hno)) rfl rfl rfl rfl rfl
  | cancelDetach h =>
    exact hs.detachNext hf rfl
      (.of_phase (fun hno => by cases hno) (fun hno => by cases hno)) rfl rfl rfl rfl rfl
  | _ => exact hs.keep hf rfl hs.handles rfl (fun _ => ⟨rfl, rfl⟩) rfl fun _ _ => .inl rfl

theorem ThreadStep.sessionInv (hs : SessionInv s) (h : ThreadStep s w s') : SessionInv s' := by
  have hf := h.follows
  cases h with
  | @settle id h hfree =>
    rcases countDown_cases s id with ⟨heq, -⟩ | ⟨index, e, he, -, heq⟩ <;> rw [heq] at hf ⊢ <;>
      exact hs.keep hf rfl hs.handles rfl (fun _ => ⟨rfl, rfl⟩) rfl fun _ _ => .inl rfl
  | _ => exact hs.keep hf rfl hs.handles rfl (fun _ => ⟨rfl, rfl⟩) rfl fun _ _ => .inl rfl

/-- **Calls keep to the sessions that were attached.** -/
theorem SessionInv.step (hi : ExecutorInv s) (hc : CallInv s) (hs : SessionInv s)
    {e : ExecutorEvent} (h : s.step e = some s') : SessionInv s' := by
  rcases he : e.thread with - | w
  · exact (callStep_of_step he h).sessionInv hi hc hs
  · exact (threadStep_of_step he h).2.sessionInv hs

end WriteExecutor

end KDown
