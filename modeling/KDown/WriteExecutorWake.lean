/-
KDown/WriteExecutorWake.lean

Who wakes the writer threads (io/write_executor.rs).

`shutdown` sets the flag and broadcasts without the mutex.  A thread that has
read the flag before and waits after it sleeps through the broadcast
(`shutdown_misses_parking`).  When no thread stands between the two at a
broadcast, every thread that is still parked afterwards has another thread at
work that will wake it, and the threads run out of steps only by leaving
(`shutdown_wakes_all`).

The destructor of the core cannot run before the threads are gone
(`dropped_executor_leaves_parked`): dropping the last handle releases them
only if the flag was set before (`dropped_executor_releases`).
-/
import KDown.WriteExecutorCalls

namespace KDown

/-- Steps of the executor itself: of its threads, and the notification of a
write that is already queued. -/
def ExecutorEvent.isOwn : ExecutorEvent → Bool
  | .work _ => true
  | .execute _ _ => true
  | .submitNotify _ _ => true
  | _ => false

namespace WriterPhase

/-- How many steps a thread can take, and can make others take, before it
parks or leaves. -/
def fuel (n : ℕ) : WriterPhase → ℕ
  | .absent => 0
  | .entering => 4
  | .scanning => 3
  | .checking => 2
  | .parking _ => 1
  | .parked => 0
  | .waking => 4
  | .executing _ _ => 10 + 4 * n
  | .sending _ _ _ => 9 + 4 * n
  | .releasing _ _ => 8 + 4 * n
  | .settling _ => 7 + 4 * n
  | .announcing => 6 + 4 * n
  | .broadcasting => 5 + 4 * n
  | .exiting => 1
  | .gone => 0

end WriterPhase

namespace WriteExecutor

variable {s s' : WriteExecutor} {w : ℕ}

/-! ### The executor's own steps come to an end -/

/-- How many writes are queued. -/
def queueFuel (s : WriteExecutor) : ℕ := listTally (fun e : SessionEntry => e.queue.length) s.sessions

/-- How many submissions are about to notify. -/
def notifyFuel (s : WriteExecutor) : ℕ :=
  tally s.submitCount (fun c : SubmitCall => if c.phase = .notifying then 1 else 0) s.submits

/-- A bound on the executor's own steps. -/
def fuel (s : WriteExecutor) : ℕ :=
  tally s.threads (WriterPhase.fuel s.threads) s.worker + (8 + 4 * s.threads) * s.queueFuel
    + 5 * s.notifyFuel

/-- A thread moves on and the queues stay. -/
theorem fuel_lt_of_move (hw : w < s.threads) (ph : WriterPhase) (hthreads : s'.threads = s.threads)
    (hworker : s'.worker = Function.update s.worker w ph) (hqueue : s'.queueFuel = s.queueFuel)
    (hsubmits : s'.submits = s.submits) (hcount : s'.submitCount = s.submitCount)
    (hlt : ph.fuel s.threads < (s.worker w).fuel s.threads) : s'.fuel < s.fuel := by
  have htally := tally_update hw (WriterPhase.fuel s.threads) s.worker ph
  have hnotify : s'.notifyFuel = s.notifyFuel := by rw [notifyFuel, notifyFuel, hsubmits, hcount]
  rw [fuel, fuel, hthreads, hworker, hqueue, hnotify]
  omega

/-- Counting down changes nothing but a count. -/
theorem countDown_frame (id : ℕ) :
    (s.countDown id).queueFuel = s.queueFuel ∧ (s.countDown id).threads = s.threads ∧
      (s.countDown id).worker = s.worker ∧ (s.countDown id).submits = s.submits ∧
      (s.countDown id).submitCount = s.submitCount := by
  rcases countDown_cases s id with ⟨heq, -⟩ | ⟨index, e, he, -, heq⟩
  · rw [heq]
    exact ⟨rfl, rfl, rfl, rfl, rfl⟩
  · rw [heq]
    have htally := listTally_set he (fun e : SessionEntry => e.queue.length)
      { e with executing := e.executing - 1 }
    exact ⟨Nat.add_right_cancel htally, rfl, rfl, rfl, rfl⟩

/-- A broadcast wakes every thread at most. -/
theorem tally_notifyAll_le (n : ℕ) :
    tally n (WriterPhase.fuel s.threads) s.notifyAll.worker
      ≤ tally n (WriterPhase.fuel s.threads) s.worker + 4 * n := by
  induction n with
  | zero => exact le_rfl
  | succ n ih =>
    have hone : (s.notifyAll.worker n).fuel s.threads ≤ (s.worker n).fuel s.threads + 4 := by
      rcases notifyAll_woken s n with h | ⟨hold, hnew⟩
      · rw [h]
        exact Nat.le_add_right _ _
      · rw [hold, hnew]
        exact le_rfl
    rw [tally, tally, Finset.sum_range_succ, Finset.sum_range_succ, ← tally, ← tally]
    omega

/-- **A thread's step uses up fuel.** -/
theorem fuel_lt_of_thread (hw : w < s.threads) (h : ThreadStep s w s') : s'.fuel < s.fuel := by
  cases h with
  | enter h hfree =>
    refine fuel_lt_of_move hw _ rfl rfl rfl rfl rfl ?_
    rcases h with h | h <;> rw [h] <;> exact Nat.lt_succ_self _
  | @take index e item rest h he hq =>
    have htally := tally_update hw (WriterPhase.fuel s.threads) s.worker (.executing e.id item)
    have hqueue := listTally_set he (fun e : SessionEntry => e.queue.length)
      { e with queue := rest, executing := e.executing + 1 }
    rw [h] at htally
    rw [hq] at hqueue
    have htake : tally s.threads (WriterPhase.fuel s.threads)
        (Function.update s.worker w (.executing e.id item)) + 3
          = tally s.threads (WriterPhase.fuel s.threads) s.worker + (10 + 4 * s.threads) := htally
    have hone : listTally (fun e : SessionEntry => e.queue.length)
        (s.sessions.set index { e with queue := rest, executing := e.executing + 1 }) + 1
          = s.queueFuel := by
      have hlen : listTally (fun e : SessionEntry => e.queue.length)
          (s.sessions.set index { e with queue := rest, executing := e.executing + 1 })
            + (rest.length + 1) = s.queueFuel + rest.length := hqueue
      omega
    rw [fuel, fuel, ← hone]
    show tally s.threads (WriterPhase.fuel s.threads)
        (Function.update s.worker w (.executing e.id item)) + (8 + 4 * s.threads) *
          listTally (fun e : SessionEntry => e.queue.length)
            (s.sessions.set index { e with queue := rest, executing := e.executing + 1 })
          + 5 * s.notifyFuel < _
    rw [Nat.mul_add, Nat.mul_one]
    omega
  | noWork h hq =>
    refine fuel_lt_of_move hw _ rfl rfl rfl rfl rfl ?_
    rw [h]
    exact Nat.lt_succ_self _
  | exit h hclosed hset =>
    refine fuel_lt_of_move hw _ rfl rfl rfl rfl rfl ?_
    rw [h]
    exact Nat.lt_succ_self _
  | stay h hset =>
    refine fuel_lt_of_move hw _ rfl rfl rfl rfl rfl ?_
    rw [h]
    exact Nat.lt_succ_self _
  | park h =>
    refine fuel_lt_of_move hw _ rfl rfl rfl rfl rfl ?_
    rw [h]
    exact Nat.lt_succ_self _
  | execute outcome h =>
    refine fuel_lt_of_move hw _ rfl rfl rfl rfl rfl ?_
    rw [h]
    show 9 + 4 * s.threads < 10 + 4 * s.threads
    omega
  | send h =>
    refine fuel_lt_of_move hw _ rfl rfl rfl rfl rfl ?_
    rw [h]
    show 8 + 4 * s.threads < 9 + 4 * s.threads
    omega
  | release h =>
    refine fuel_lt_of_move hw _ rfl rfl rfl rfl rfl ?_
    rw [h]
    show 7 + 4 * s.threads < 8 + 4 * s.threads
    omega
  | @settle id h hfree =>
    obtain ⟨hqueue, hthreads, hworker, hsubmits, hcount⟩ := countDown_frame (s := s) id
    refine fuel_lt_of_move hw .announcing hthreads ?_ hqueue hsubmits hcount ?_
    · show Function.update (s.countDown id).worker w _ = _
      rw [hworker]
    · rw [h]
      show 6 + 4 * s.threads < 7 + 4 * s.threads
      omega
  | announce h hclosed =>
    refine fuel_lt_of_move hw _ rfl rfl rfl rfl rfl ?_
    rw [h]
    show 5 + 4 * s.threads < 6 + 4 * s.threads
    omega
  | goOn h hclosed =>
    refine fuel_lt_of_move hw _ rfl rfl rfl rfl rfl ?_
    rw [h]
    show 4 < 6 + 4 * s.threads
    omega
  | broadcast h =>
    have h' : s.notifyAll.worker w = .broadcasting := by
      show (if s.worker w = .parked then WriterPhase.waking else s.worker w) = _
      rw [h]
      rfl
    have hwoken := tally_notifyAll_le (s := s) s.threads
    have htally := tally_update hw (WriterPhase.fuel s.threads) s.notifyAll.worker .entering
    rw [h'] at htally
    have hmove : tally s.threads (WriterPhase.fuel s.threads)
        (Function.update s.notifyAll.worker w .entering) + (5 + 4 * s.threads)
          = tally s.threads (WriterPhase.fuel s.threads) s.notifyAll.worker + 4 := htally
    show tally s.threads (WriterPhase.fuel s.threads)
        (Function.update s.notifyAll.worker w .entering) + (8 + 4 * s.threads) * s.queueFuel
          + 5 * s.notifyFuel < s.fuel
    rw [fuel]
    omega
  | leave h =>
    refine fuel_lt_of_move hw _ rfl rfl rfl rfl rfl ?_
    rw [h]
    exact Nat.lt_succ_self _

/-- So does the notification of a write. -/
theorem fuel_lt_of_notify (hc : CallInv s) {i : ℕ} {woken : Option ℕ}
    (h : s.submitNotify i woken = some s') : s'.fuel < s.fuel := by
  -- the call stops notifying
  have hnotify : ∀ (hn : (s.submits i).phase = .notifying),
      tally s.submitCount (fun c : SubmitCall => if c.phase = .notifying then 1 else 0)
        (Function.update s.submits i { s.submits i with phase := .accepted }) + 1
          = s.notifyFuel := by
    intro hn
    have hi : i < s.submitCount := hc.lt_submit hn nofun
    have htally := tally_update hi (fun c : SubmitCall => if c.phase = .notifying then 1 else 0)
      s.submits { s.submits i with phase := .accepted }
    rw [if_pos hn] at htally
    exact htally
  rcases woken with - | w <;> simp only [submitNotify] at h <;> split_ifs at h with hn <;> cases h
  · have hless := hnotify hn.1
    show tally s.threads (WriterPhase.fuel s.threads) s.worker
      + (8 + 4 * s.threads) * s.queueFuel + 5 *
      tally s.submitCount (fun c : SubmitCall => if c.phase = .notifying then 1 else 0)
        (Function.update s.submits i { s.submits i with phase := .accepted }) < s.fuel
    rw [fuel, ← hless]
    omega
  · have hless := hnotify hn.1
    have htally := tally_update hn.2.1 (WriterPhase.fuel s.threads) s.worker .waking
    rw [hn.2.2] at htally
    have hwoken : tally s.threads (WriterPhase.fuel s.threads)
        (Function.update s.worker w .waking) + 0
          = tally s.threads (WriterPhase.fuel s.threads) s.worker + 4 := htally
    show tally s.threads (WriterPhase.fuel s.threads) (Function.update s.worker w .waking)
      + (8 + 4 * s.threads) * s.queueFuel + 5 *
      tally s.submitCount (fun c : SubmitCall => if c.phase = .notifying then 1 else 0)
        (Function.update s.submits i { s.submits i with phase := .accepted }) < s.fuel
    rw [fuel, ← hless]
    omega

theorem fuel_lt (hc : CallInv s) {e : ExecutorEvent} (hown : e.isOwn = true)
    (h : s.step e = some s') : s'.fuel < s.fuel := by
  rcases he : e.thread with - | w
  · cases e <;> first | cases hown; done | cases he; done | exact fuel_lt_of_notify hc h
  · obtain ⟨hw, hstep⟩ := threadStep_of_step he h
    exact fuel_lt_of_thread hw hstep

/-- A run of the executor's own steps is no longer than its fuel. -/
theorem length_le_fuel (hc : CallInv s) {es : List ExecutorEvent}
    (hown : ∀ e ∈ es, e.isOwn = true) (h : runEvents step s es = some s') :
    es.length + s'.fuel ≤ s.fuel := by
  induction es generalizing s with
  | nil =>
    rw [← Option.some.inj h]
    exact (Nat.zero_add _).le
  | cons e es ih =>
    obtain ⟨t, ht, hrest⟩ := Option.bind_eq_some_iff.mp h
    have hlt := fuel_lt hc (hown e List.mem_cons_self) ht
    have hle := ih (hc.step ht) (fun e' he' => hown e' (List.mem_cons_of_mem _ he')) hrest
    rw [List.length_cons]
    omega

/-! ### When no thread can move -/

/-- The executor has no step of its own left. -/
def Stuck (s : WriteExecutor) : Prop := ∀ e : ExecutorEvent, e.isOwn = true → s.step e = none

/-- A thread that holds the mutex can go on. -/
theorem workerStep_of_holdsLock (h : (s.worker w).holdsLock = true) :
    s.workerStep w (s.worker w) ≠ none := by
  rcases hph : s.worker w <;> rw [hph] at h <;> cases h <;> simp only [workerStep]
  case scanning =>
    split
    · next index hpick =>
      obtain ⟨e, he, hne⟩ := pick_some hpick
      obtain ⟨item, rest, hq⟩ := List.exists_cons_of_ne_nil hne
      simp [WriteExecutor.take, he, hq]
    · exact Option.some_ne_none _
  case checking =>
    split_ifs <;> exact Option.some_ne_none _
  case announcing =>
    split_ifs <;> exact Option.some_ne_none _
  all_goals exact Option.some_ne_none _

/-- When nothing moves, every thread is parked or gone. -/
theorem Stuck.parked_or_gone (hi : ExecutorInv s) (hs : s.Stuck) (hw : w < s.threads) :
    s.worker w = .parked ∨ s.worker w = .gone := by
  have hwork : ∀ {w}, w < s.threads → s.workerStep w (s.worker w) = none := by
    intro w hw
    have hnone := hs (.work w) rfl
    rwa [step, if_pos hw] at hnone
  -- a mutex that is held is held by a thread that can go on
  have hfree : s.lock = none := by
    by_contra hne
    obtain ⟨w', hw'⟩ := Option.ne_none_iff_exists'.mp hne
    have hholds := (hi.lock w').mpr hw'
    have hlt : w' < s.threads := by
      by_contra hge
      rw [(hi.absent w').mpr (not_lt.mp hge)] at hholds
      cases hholds
    exact workerStep_of_holdsLock hholds (hwork hlt)
  have hnone := hwork hw
  rcases hph : s.worker w <;> rw [hph] at hnone
  case absent => exact absurd hw (not_lt.mpr ((hi.absent w).mp hph))
  case parked => exact .inl rfl
  case gone => exact .inr rfl
  case executing id item =>
    have hexec := hs (.execute w none) rfl
    rw [step, hph] at hexec
    simp [hw] at hexec
  case entering => simp [workerStep, hfree] at hnone
  case waking => simp [workerStep, hfree] at hnone
  case settling => simp [workerStep, hfree] at hnone
  case sending => cases hnone
  case releasing => cases hnone
  case exiting => cases hnone
  all_goals
    refine absurd hnone ?_
    rw [← hph]
    exact workerStep_of_holdsLock (by rw [hph]; rfl)

/-! ### The closing notification -/

/-- At a closing notification no thread stands between its read of the flag
and its wait. -/
def BroadcastSafe (s : WriteExecutor) (e : ExecutorEvent) : Prop :=
  ∀ j < s.shutdownCount, e = .shutdownNext j → s.shutdowns j = .notifying →
    ∀ w < s.threads, s.worker w ≠ .parking false

instance (s : WriteExecutor) (e : ExecutorEvent) : Decidable (s.BroadcastSafe e) :=
  inferInstanceAs (Decidable (∀ j < s.shutdownCount, e = .shutdownNext j →
    s.shutdowns j = .notifying → ∀ w < s.threads, s.worker w ≠ .parking false))

/-- After the closing notification, whoever is parked has a thread at work
that will wake it. -/
def WakeInv (s : WriteExecutor) : Prop :=
  s.Issued → (∀ w, s.worker w ≠ .parking false) ∧
    ∀ w, s.worker w = .parked → ∃ w', (s.worker w').isBusy = true

theorem ExecutorInv.closed_of_issued (hi : ExecutorInv s) (h : s.Issued) : s.closed = true := by
  obtain ⟨j, hj⟩ := h
  exact hi.flag j (ShutdownPhase.hasStored_of_hasNotified hj)

/-- A thread moves on: it does not park unseen, and does not stop being busy. -/
theorem WakeInv.move (hwake : WakeInv s) (ph : WriterPhase)
    (hworker : s'.worker = Function.update s.worker w ph) (hissued : s'.Issued → s.Issued)
    (hph : s.Issued → ph ≠ .parking false)
    (hparked : s.Issued → ph = .parked → ∃ w', w' ≠ w ∧ (s.worker w').isBusy = true)
    (hbusy : s.Issued → (s.worker w).isBusy = true → ph.isBusy = true) : WakeInv s' := by
  intro hiss
  have hold := hissued hiss
  obtain ⟨hnot, hwoken⟩ := hwake hold
  -- whoever was busy still is
  have hkeep : ∀ w', (s.worker w').isBusy = true → (s'.worker w').isBusy = true := by
    intro w' hb
    rw [hworker]
    by_cases hne : w' = w
    · subst hne
      rw [Function.update_self]
      exact hbusy hold hb
    · rwa [Function.update_of_ne hne]
  refine ⟨fun w' => ?_, fun w' hw' => ?_⟩
  · rw [hworker]
    by_cases hne : w' = w
    · subst hne
      rw [Function.update_self]
      exact hph hold
    · rw [Function.update_of_ne hne]
      exact hnot w'
  · rw [hworker] at hw'
    by_cases hne : w' = w
    · subst hne
      rw [Function.update_self] at hw'
      obtain ⟨w'', -, hb⟩ := hparked hold hw'
      exact ⟨w'', hkeep w'' hb⟩
    · rw [Function.update_of_ne hne] at hw'
      obtain ⟨w'', hb⟩ := hwoken w' hw'
      exact ⟨w'', hkeep w'' hb⟩

/-- **A thread that parks leaves one behind that will wake it.** -/
theorem WakeInv.thread (hi : ExecutorInv s) (hwake : WakeInv s) (h : ThreadStep s w s') :
    WakeInv s' := by
  have hissued : s'.Issued → s.Issued := by
    intro hiss
    obtain ⟨j, hj⟩ := hiss
    rw [h.calls.2.2.2.2.1] at hj
    exact ⟨j, hj⟩
  cases h with
  | enter h hfree =>
    refine hwake.move _ rfl hissued (fun _ => nofun) (fun _ => nofun) fun _ hb => ?_
    rcases h with h | h <;> rw [h] at hb <;> cases hb
  | take h he hq => exact hwake.move _ rfl hissued (fun _ => nofun) (fun _ => nofun) fun _ _ => rfl
  | noWork h hq =>
    refine hwake.move _ rfl hissued (fun _ => nofun) (fun _ => nofun) fun _ hb => ?_
    rw [h] at hb
    cases hb
  | exit h hclosed hset =>
    refine hwake.move _ rfl hissued (fun _ => nofun) (fun _ => nofun) fun _ hb => ?_
    rw [h] at hb
    cases hb
  | stay h hset =>
    refine hwake.move _ rfl hissued (fun hiss => ?_) (fun _ => nofun) fun _ hb => ?_
    · rw [hi.closed_of_issued hiss]
      nofun
    · rw [h] at hb
      cases hb
  | @park sawClosed h =>
    refine hwake.move _ rfl hissued (fun _ => nofun) (fun hiss _ => ?_) fun _ hb => ?_
    · have hsaw : sawClosed = true := by
        rcases sawClosed with - | -
        · exact absurd h ((hwake hiss).1 w)
        · rfl
      rw [hsaw] at h
      obtain ⟨w', hb⟩ := hi.waits w h
      refine ⟨w', ?_, hb⟩
      rintro rfl
      rw [h] at hb
      cases hb
    · rw [h] at hb
      cases hb
  | execute outcome h =>
    exact hwake.move _ rfl hissued (fun _ => nofun) (fun _ => nofun) fun _ _ => rfl
  | send h => exact hwake.move _ rfl hissued (fun _ => nofun) (fun _ => nofun) fun _ _ => rfl
  | release h => exact hwake.move _ rfl hissued (fun _ => nofun) (fun _ => nofun) fun _ _ => rfl
  | @settle id h hfree =>
    refine hwake.move (w := w) .announcing ?_ hissued (fun _ => nofun) (fun _ => nofun)
      fun _ _ => rfl
    show Function.update (s.countDown id).worker w _ = _
    rw [(countDown_frame id).2.2.1]
  | announce h hclosed =>
    exact hwake.move _ rfl hissued (fun _ => nofun) (fun _ => nofun) fun _ _ => rfl
  | goOn h hclosed =>
    refine hwake.move _ rfl hissued (fun _ => nofun) (fun _ => nofun) fun hiss _ => ?_
    rw [hi.closed_of_issued hiss] at hclosed
    cases hclosed
  | broadcast h =>
    -- nobody stays parked
    intro hiss
    have hstay : ∀ w', s.notifyAll.worker w' ≠ .parked ∧
        (s.notifyAll.worker w' = .parking false → s.worker w' = .parking false) := by
      intro w'
      rcases notifyAll_woken s w' with hsame | ⟨hold, hnew⟩
      · rw [hsame]
        refine ⟨fun hp => ?_, id⟩
        have hwaking : s.notifyAll.worker w' = .waking := if_pos hp
        rw [hsame, hp] at hwaking
        cases hwaking
      · rw [hnew]
        exact ⟨nofun, nofun⟩
    have hworker : ((s.notifyAll.setWorker w .entering).setLock none).worker
        = Function.update s.notifyAll.worker w .entering := rfl
    refine ⟨fun w' => ?_, fun w' hw' => ?_⟩
    · rw [hworker]
      by_cases hne : w' = w
      · subst hne
        rw [Function.update_self]
        nofun
      · rw [Function.update_of_ne hne]
        exact fun hp => (hwake (hissued hiss)).1 w' ((hstay w').2 hp)
    · rw [hworker] at hw'
      by_cases hne : w' = w
      · subst hne
        rw [Function.update_self] at hw'
        cases hw'
      · rw [Function.update_of_ne hne] at hw'
        exact absurd hw' (hstay w').1
  | leave h =>
    refine hwake.move _ rfl hissued (fun _ => nofun) (fun _ => nofun) fun _ hb => ?_
    rw [h] at hb
    cases hb

theorem WakeInv.quiet (hwake : WakeInv s) (h : Quiet s s') (hissued : s'.Issued → s.Issued) :
    WakeInv s' := by
  intro hiss
  obtain ⟨hnot, hwoken⟩ := hwake (hissued hiss)
  refine ⟨fun w hw => hnot w (h.worker hw nofun), fun w hw => ?_⟩
  obtain ⟨w', hb⟩ := hwoken w (h.worker hw nofun)
  exact ⟨w', by rw [h.isBusy]; exact hb⟩

/-- The closing notification itself. -/
theorem WakeInv.notify {j : ℕ} (hno : ∀ w, s.worker w ≠ .parking false) :
    WakeInv (s.notifyAll.setShutdown j .taking) := by
  intro _
  have hsame : ∀ w, s.notifyAll.worker w = s.worker w ∧ s.worker w ≠ .parked ∨
      s.notifyAll.worker w = .waking := by
    intro w
    by_cases hp : s.worker w = .parked
    · exact .inr (if_pos hp)
    · exact .inl ⟨if_neg hp, hp⟩
  refine ⟨fun w hw => ?_, fun w hw => ?_⟩
  · have hw' : s.notifyAll.worker w = .parking false := hw
    rcases hsame w with ⟨heq, -⟩ | hwak
    · exact hno w (heq.symm.trans hw')
    · rw [hwak] at hw'
      cases hw'
  · have hw' : s.notifyAll.worker w = .parked := hw
    rcases hsame w with ⟨heq, hne⟩ | hwak
    · exact absurd (heq.symm.trans hw') hne
    · rw [hwak] at hw'
      cases hw'

/-- **Whoever is parked after the closing notification is still to be woken.** -/
theorem WakeInv.step (hi : ExecutorInv s) (hc : CallInv s) (hwake : WakeInv s) {e : ExecutorEvent}
    (hok : s.BroadcastSafe e) (h : s.step e = some s') : WakeInv s' := by
  rcases he : e.thread with - | w
  · by_cases hclosing : ∃ j, e = .shutdownNext j ∧ s.shutdowns j = .notifying
    · obtain ⟨j, rfl, hph⟩ := hclosing
      simp only [WriteExecutor.step, hph, shutdownStep] at h
      cases h
      refine WakeInv.notify fun w => ?_
      by_cases hw : w < s.threads
      · exact hok j (hc.lt_shutdown hph (fun hno => by cases hno)) rfl hph w hw
      · rw [(hi.absent w).mpr (not_lt.mp hw)]
        intro hno
        cases hno
    · exact hwake.quiet (quiet_of_step hi he h) fun hiss => issued_of_step hiss he h hclosing
  · exact hwake.thread hi (threadStep_of_step he h).2

/-! ### Shutdown finishes -/

/-- The invariants behind the wake-up argument. -/
structure WakeSystemInv (s : WriteExecutor) : Prop where
  executor : ExecutorInv s
  calls : CallInv s
  wake : WakeInv s

theorem WakeSystemInv.new (n m : ℕ) : WakeSystemInv (new n m) where
  executor := .new n m
  calls := .new n m
  wake := fun ⟨_, hj⟩ => by cases hj

/-- The invariants behind the wake-up argument are kept together. -/
theorem WakeSystemInv.step (hi : WakeSystemInv s) {e : ExecutorEvent} (hok : s.BroadcastSafe e)
    (h : s.step e = some s') : WakeSystemInv s' where
  executor := hi.executor.step h
  calls := hi.calls.step h
  wake := hi.wake.step hi.executor hi.calls hok h

/-- A notification is still to come: of a submit call, of a shutdown, or at
the end of a write under way. -/
def NotificationComing (s : WriteExecutor) : Prop :=
  (∃ i, (s.submits i).phase = .notifying) ∨ (∃ j, s.shutdowns j = .notifying) ∨
    ∃ w, (s.worker w).isBusy = true

/-- Thread `w` sleeps for ever: the executor is closed and drained, its
closing notification is over and no other one is to come. -/
structure Stranded (s : WriteExecutor) (w : ℕ) : Prop where
  closed : s.closed = true
  settled : s.Settled
  issued : s.Issued
  parked : s.worker w = .parked
  silent : ¬ s.NotificationComing

/-- The executor's own steps are not closing notifications. -/
theorem broadcastSafe_of_own {e : ExecutorEvent} (h : e.isOwn = true) : s.BroadcastSafe e := by
  intro j _ he
  rw [he] at h
  cases h

theorem ThreadStep.threads (h : ThreadStep s w s') : s'.threads = s.threads := by
  cases h with
  | @settle id h hfree => exact (countDown_frame id).2.1
  | _ => rfl

/-- The executor's own steps leave the shutdown calls alone. -/
theorem own_frame (hi : ExecutorInv s) {e : ExecutorEvent} (hown : e.isOwn = true)
    (h : s.step e = some s') : s'.threads = s.threads ∧ s'.shutdowns = s.shutdowns := by
  rcases he : e.thread with - | w
  · refine ⟨(quiet_of_step hi he h).threads, ?_⟩
    cases e with
    | submitNotify i woken =>
      simp only [WriteExecutor.step] at h
      rcases woken with - | w <;> simp only [submitNotify] at h <;> split_ifs at h <;> cases h <;> rfl
    | work w => cases he
    | execute w result => cases he
    | _ => cases hown
  · have hstep := (threadStep_of_step he h).2
    exact ⟨hstep.threads, hstep.calls.2.2.2.2.1⟩

/-- The same for a run of the executor itself, in which no shutdown moves. -/
theorem WakeSystemInv.own_run (hi : WakeSystemInv s) {es : List ExecutorEvent}
    (hown : ∀ e ∈ es, e.isOwn = true) (h : runEvents WriteExecutor.step s es = some s') :
    WakeSystemInv s' ∧ s'.threads = s.threads ∧ s'.shutdowns = s.shutdowns := by
  induction es generalizing s with
  | nil =>
    rw [← Option.some.inj h]
    exact ⟨hi, rfl, rfl⟩
  | cons e es ih =>
    obtain ⟨t, ht, hrest⟩ := Option.bind_eq_some_iff.mp h
    have hfirst := hown e List.mem_cons_self
    obtain ⟨hthreads, hshutdowns⟩ := own_frame hi.executor hfirst ht
    obtain ⟨hend, hthreads', hshutdowns'⟩ := ih (hi.step (broadcastSafe_of_own hfirst) ht)
      (fun e' he' => hown e' (List.mem_cons_of_mem _ he')) hrest
    exact ⟨hend, hthreads'.trans hthreads, hshutdowns'.trans hshutdowns⟩

/-- After the closing notification nothing is left to do only when every
thread has left. -/
theorem WakeSystemInv.all_gone (hi : WakeSystemInv s) (hiss : s.Issued) (hs : s.Stuck)
    (hw : w < s.threads) : s.worker w = .gone := by
  rcases hs.parked_or_gone hi.executor hw with hp | hg
  · obtain ⟨w', hb⟩ := (hi.wake hiss).2 w hp
    have hlt : w' < s.threads := by
      by_contra hge
      rw [(hi.executor.absent w').mpr (not_lt.mp hge)] at hb
      cases hb
    rcases hs.parked_or_gone hi.executor hlt with hp' | hg'
    · rw [hp'] at hb
      cases hb
    · rw [hg'] at hb
      cases hb
  · exact hg

/-- The executor's own steps from `s` come to an end, with every thread
gone. -/
def Drains (s : WriteExecutor) : Prop :=
  ∀ es s', (∀ e ∈ es, e.isOwn = true) → runEvents step s es = some s' →
    es.length ≤ s.fuel ∧ (s'.Stuck → ∀ w < s.threads, s'.worker w = .gone)

theorem WakeSystemInv.drains (hi : WakeSystemInv s) (hiss : s.Issued) : s.Drains := by
  intro es s' hown h
  obtain ⟨hend, hthreads, hshutdowns⟩ := hi.own_run hown h
  refine ⟨(Nat.le_add_right _ _).trans (length_le_fuel hi.calls hown h), fun hstuck w hw => ?_⟩
  have hiss' : s'.Issued := by
    obtain ⟨j, hj⟩ := hiss
    exact ⟨j, by rw [hshutdowns]; exact hj⟩
  exact hend.all_gone hiss' hstuck (hthreads ▸ hw)

/-- **Shutdown wakes every thread.**  While no closing notification is issued
between a thread's read of the flag and its wait, no thread is ever stranded,
and after a closing notification the executor's own steps end with every
thread gone. -/
theorem shutdown_wakes_all {n m : ℕ} (h : Reach step BroadcastSafe (· = new n m) s) :
    (∀ w, ¬ s.Stranded w) ∧ (s.Issued → s.Drains) := by
  have hi : WakeSystemInv s :=
    h.invariant (fun _ hnew => hnew ▸ .new n m) fun _ _ _ hi hok hs => hi.step hok hs
  refine ⟨fun w hw => hw.silent (.inr (.inr ?_)), hi.drains⟩
  exact (hi.wake hw.issued).2 w hw.parked

/-- The thread parks, and then the executor is shut down. -/
def promptRun : List ExecutorEvent :=
  List.replicate 4 (ExecutorEvent.work 0) ++ [ExecutorEvent.shutdown, .shutdownNext 0, .shutdownNext 0]

/-- The shutdown wakes the thread. -/
theorem shutdown_wakes_all_promptRun :
    ∃ s, runEvents step (new 1 64) promptRun = some s ∧ s.worker 0 = .waking ∧ s.Drains := by
  have hok : runOk step BroadcastSafe (new 1 64) promptRun := by decide
  have hrun : ∃ s ∈ runEvents step (new 1 64) promptRun,
      s.worker 0 = .waking ∧ s.shutdowns 0 = .taking := by decide
  obtain ⟨s, hs, hwaking, hph⟩ := hrun
  exact ⟨s, hs, hwaking,
    (shutdown_wakes_all (.of_run (.start rfl) hok hs)).2 ⟨0, by rw [hph]; rfl⟩⟩

/-- The invariants that need no condition hold in every run. -/
theorem inv_of_reach {n m : ℕ} (h : Reach step (fun _ _ => True) (· = new n m) s) :
    ExecutorInv s ∧ CallInv s := by
  refine Reach.invariant (I := fun s => ExecutorInv s ∧ CallInv s) ?_ ?_ h
  · rintro s rfl
    exact ⟨.new n m, .new n m⟩
  · intro s e s' hi _ hs
    exact ⟨hi.1.step hs, hi.2.step hs⟩

/-- It is enough to look at the calls made and the threads started. -/
theorem not_notificationComing {n m : ℕ} {es : List ExecutorEvent}
    (h : runEvents step (new n m) es = some s)
    (hsubmits : ∀ i < s.submitCount, (s.submits i).phase ≠ .notifying)
    (hshutdowns : ∀ j < s.shutdownCount, s.shutdowns j ≠ .notifying)
    (hworkers : ∀ w < s.threads, (s.worker w).isBusy = false) : ¬ s.NotificationComing := by
  obtain ⟨hi, hc⟩ := inv_of_reach (.of_run (.start rfl) runOk_true h)
  rintro (⟨i, hn⟩ | ⟨j, hn⟩ | ⟨w, hb⟩)
  · exact hsubmits i (hc.lt_submit hn nofun) hn
  · exact hshutdowns j (hc.lt_shutdown hn nofun) hn
  · by_cases hw : w < s.threads
    · rw [hworkers w hw] at hb
      cases hb
    · rw [(hi.absent w).mpr (not_lt.mp hw)] at hb
      cases hb

/-- The flag is set and broadcast while the thread is about to park. -/
def missedRun : List ExecutorEvent :=
  List.replicate 3 (ExecutorEvent.work 0) ++
    [ExecutorEvent.shutdown, .shutdownNext 0, .shutdownNext 0, .work 0]

/-- **A thread that parks behind the notification sleeps on.** -/
theorem shutdown_misses_parking :
    ∃ s, runEvents step (new 1 64) missedRun = some s ∧ s.Stranded 0 := by
  have hrun : ∃ s ∈ runEvents step (new 1 64) missedRun,
      (s.worker 0 = .parked ∧ s.closed = true ∧ s.Settled ∧ s.shutdowns 0 = .taking) ∧
      (∀ i < s.submitCount, (s.submits i).phase ≠ .notifying) ∧
      (∀ j < s.shutdownCount, s.shutdowns j ≠ .notifying) ∧
      (∀ w < s.threads, (s.worker w).isBusy = false) := by decide
  obtain ⟨s, hs, ⟨hparked, hclosed, hset, hph⟩, hsubmits, hshutdowns, hworkers⟩ := hrun
  exact ⟨s, hs, hclosed, hset, ⟨0, by rw [hph]; rfl⟩, hparked,
    not_notificationComing hs hsubmits hshutdowns hworkers⟩

/-! ### Dropping the handles -/

/-- The step that drops the last handle finds the flag set. -/
def SafeDrop (s : WriteExecutor) (e : ExecutorEvent) : Prop :=
  ∀ s' ∈ s.step e, s'.AllDropped → s.closed = true

instance (s : WriteExecutor) (e : ExecutorEvent) : Decidable (s.SafeDrop e) :=
  inferInstanceAs (Decidable (∀ s' ∈ s.step e, s'.AllDropped → s.closed = true))

/-- The executor is closed once nobody refers to it, and only then or by a
shutdown. -/
structure DropInv (s : WriteExecutor) : Prop where
  system : WakeSystemInv s
  dropped : s.AllDropped → s.closed = true
  /-- Who set the flag: a shutdown, or the destructor after the threads. -/
  source : s.closed = true →
    (∃ j, (s.shutdowns j).hasStored = true) ∨ ∀ w < s.threads, s.worker w = .gone

theorem DropInv.new (n m : ℕ) : DropInv (new n m) where
  system := .new n m
  dropped := fun h => absurd h.1 Nat.one_ne_zero
  source := nofun

theorem ThreadStep.closed (h : ThreadStep s w s') : s'.closed = s.closed := by
  cases h with
  | @settle id h hfree =>
    rcases countDown_cases s id with ⟨heq, -⟩ | ⟨index, e, -, -, heq⟩ <;> rw [heq] <;> rfl
  | _ => rfl

/-- A thread that is gone takes no step. -/
theorem ThreadStep.not_gone (h : ThreadStep s w s') : s.worker w ≠ .gone := by
  intro hg
  cases h with
  | enter h hfree => rcases h with h | h <;> rw [h] at hg <;> cases hg
  | _ => simp_all

/-- Once all threads are gone, none comes back. -/
theorem gone_of_step (hi : ExecutorInv s) {e : ExecutorEvent} (h : s.step e = some s')
    (hgone : ∀ w < s.threads, s.worker w = .gone) : ∀ w < s'.threads, s'.worker w = .gone := by
  intro w hw
  rcases he : e.thread with - | w'
  · have hq := quiet_of_step hi he h
    rw [hq.threads] at hw
    rcases hq.woken w with hsame | ⟨hold, -⟩
    · rw [hsame, hgone w hw]
    · rw [hgone w hw] at hold
      cases hold
  · obtain ⟨hlt, hstep⟩ := threadStep_of_step he h
    exact absurd (hgone w' hlt) hstep.not_gone

/-- The same for a run. -/
theorem gone_of_run (hi : ExecutorInv s) {es : List ExecutorEvent}
    (h : runEvents step s es = some s') (hgone : ∀ w < s.threads, s.worker w = .gone) :
    ∀ w < s'.threads, s'.worker w = .gone := by
  induction es generalizing s with
  | nil => exact Option.some.inj h ▸ hgone
  | cons e es ih =>
    obtain ⟨t, ht, hrest⟩ := Option.bind_eq_some_iff.mp h
    exact ih (hi.step ht) hrest (gone_of_step hi ht hgone)

/-- **The executor is closed by its last handle**, if that finds the flag set. -/
theorem DropInv.step (hi : DropInv s) {e : ExecutorEvent} (hok : s.BroadcastSafe e ∧ s.SafeDrop e)
    (h : s.step e = some s') : DropInv s' := by
  have hclosed : s.closed = true → s'.closed = true := by
    rcases he : e.thread with - | w
    · exact (quiet_of_step hi.system.executor he h).closed
    · exact fun hcl => (threadStep_of_step he h).2.closed.trans hcl
  refine ⟨hi.system.step hok.1 h, fun hall => hclosed (hok.2 s' h hall), fun hcl => ?_⟩
  -- the flag was set before, or by this step
  have hsource : (∃ j, (s'.shutdowns j).hasStored = true) ∨ ∀ w < s.threads, s.worker w = .gone := by
    have hbefore : s.closed = true →
        (∃ j, (s'.shutdowns j).hasStored = true) ∨ ∀ w < s.threads, s.worker w = .gone := by
      intro hold
      rcases hi.source hold with ⟨j, hj⟩ | hgone
      · exact .inl ⟨j, hasStored_of_step hi.system.calls h hj⟩
      · exact .inr hgone
    rcases he : e.thread with - | w
    · rcases (quiet_of_step hi.system.executor he h).source hcl with hold | hnew
      · exact hbefore hold
      · exact hnew
    · exact hbefore ((threadStep_of_step he h).2.closed.symm.trans hcl)
  rcases hsource with hstored | hgone
  · exact .inl hstored
  · exact .inr (gone_of_step hi.system.executor h hgone)

/-- When every handle is gone, the closing notification was issued or the
threads are gone. -/
theorem DropInv.issued (hi : DropInv s) (hall : s.AllDropped) :
    s.Issued ∨ ∀ w < s.threads, s.worker w = .gone := by
  rcases hi.source (hi.dropped hall) with ⟨j, hj⟩ | hgone
  · refine .inl ⟨j, ?_⟩
    -- a call under way would hold a handle
    have hopen : (s.shutdowns j).isOpen = false := by
      by_contra hne
      have hpos := hi.system.calls.lent_pos_shutdown (j := j) (by simpa using hne)
      exact absurd hall.2.2 hpos.ne'
    rcases hph : s.shutdowns j <;> rw [hph] at hj hopen <;>
      first | cases hj; done | cases hopen; done | rfl
  · exact .inr hgone

/-- **Dropping every handle releases the threads**, when the flag is set by
then and no closing notification falls between a thread's read of it and its
wait: whoever is still parked has a thread at work that will wake it. -/
theorem dropped_executor_releases {n m : ℕ}
    (h : Reach step (fun s e => s.BroadcastSafe e ∧ s.SafeDrop e) (· = new n m) s)
    (hall : s.AllDropped) :
    s.closed = true ∧ (∀ w, s.worker w = .parked → ∃ w', (s.worker w').isBusy = true) ∧
      s.Drains := by
  have hi : DropInv s :=
    h.invariant (fun _ hnew => hnew ▸ .new n m) fun _ _ _ hi hok hs => hi.step hok hs
  refine ⟨hi.dropped hall, ?_⟩
  rcases hi.issued hall with hiss | hgone
  · exact ⟨(hi.system.wake hiss).2, hi.system.drains hiss⟩
  · refine ⟨fun w hw => ?_, fun es s' hown hrun => ⟨?_, fun _ w hw => ?_⟩⟩
    · by_cases hlt : w < s.threads
      · rw [hgone w hlt] at hw
        cases hw
      · rw [(hi.system.executor.absent w).mpr (not_lt.mp hlt)] at hw
        cases hw
    · exact (Nat.le_add_right _ _).trans (length_le_fuel hi.system.calls hown hrun)
    · refine gone_of_run hi.system.executor hrun hgone w ?_
      rw [(hi.system.own_run hown hrun).2.1]
      exact hw

/-- The thread parks, the executor is shut down, and the thread leaves. -/
def closedRun : List ExecutorEvent :=
  List.replicate 4 (ExecutorEvent.work 0) ++
    [ExecutorEvent.shutdown, .shutdownNext 0, .shutdownNext 0, .shutdownNext 0] ++
    [ExecutorEvent.shutdownCancel 0]

/-- The last reference goes, and the thread is awake to see it. -/
theorem dropped_executor_releases_closedRun :
    ∃ s, runEvents step (new 1 64) closedRun = some s ∧ s.AllDropped ∧ s.worker 0 = .waking ∧
      s.Drains := by
  have hok : runOk step (fun s e => s.BroadcastSafe e ∧ s.SafeDrop e) (new 1 64) closedRun := by
    decide
  have hrun : ∃ s ∈ runEvents step (new 1 64) closedRun, s.AllDropped ∧ s.worker 0 = .waking := by
    decide
  obtain ⟨s, hs, hall, hwaking⟩ := hrun
  exact ⟨s, hs, hall, hwaking, (dropped_executor_releases (.of_run (.start rfl) hok hs) hall).2.2⟩

/-- The thread parks and the only handle is dropped. -/
def forgottenRun : List ExecutorEvent :=
  List.replicate 4 (ExecutorEvent.work 0) ++ [ExecutorEvent.dropExecutor]

/-- **An executor that is dropped while its thread is parked** is never closed. -/
theorem dropped_executor_leaves_parked :
    ∃ s, runEvents step (new 1 64) forgottenRun = some s ∧ s.AllDropped ∧ s.Settled ∧
      s.closed = false ∧ s.worker 0 = .parked ∧ ¬ s.NotificationComing ∧ s.step .dropCore = none := by
  have hrun : ∃ s ∈ runEvents step (new 1 64) forgottenRun,
      (s.AllDropped ∧ s.Settled ∧ s.closed = false ∧ s.worker 0 = .parked ∧
        (s.step .dropCore).isNone) ∧
      (∀ i < s.submitCount, (s.submits i).phase ≠ .notifying) ∧
      (∀ j < s.shutdownCount, s.shutdowns j ≠ .notifying) ∧
      (∀ w < s.threads, (s.worker w).isBusy = false) := by decide
  obtain ⟨s, hs, ⟨hall, hset, hclosed, hparked, hcore⟩, hsubmits, hshutdowns, hworkers⟩ := hrun
  exact ⟨s, hs, hall, hset, hclosed, hparked,
    not_notificationComing hs hsubmits hshutdowns hworkers, Option.isNone_iff_eq_none.mp hcore⟩

end WriteExecutor

end KDown
