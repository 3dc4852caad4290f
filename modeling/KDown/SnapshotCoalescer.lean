/-
KDown/SnapshotCoalescer.lean

The event stream of one client (app api/sse.rs).

The stream receives the published views from the bounded broker and passes each
through a gate: the first view of a job, a view with another status than the
last one shown, and otherwise one view in 250 ms.  A view that is refused is
dropped, and nothing shows it later.  What the broker dropped is announced as
`service.degraded`.

The gate remembers when it last showed a job and with which status; the
invariant below says that this memory is the last view shown, and that the last
view received is that one or was refused because of it.
-/
import KDown.JobView
import KDown.Broadcast
import KDown.Runs

namespace KDown

open Broadcast

/-! ### The gate -/

/-- 250 ms, in nanoseconds. -/
def coalesceWindow : ℕ := 250000000

/-- When each job was last emitted, and with which status. -/
structure SnapshotCoalescer where
  lastEmitted : SortedMap ℕ (ℕ × Option DurableJobStatus)

variable {δ : Type*}

/-- Whether a view may be emitted now. -/
def SnapshotCoalescer.allow (c : SnapshotCoalescer) (now : ℕ) (view : JobView δ) :
    Bool × SnapshotCoalescer :=
  let shown : SnapshotCoalescer := ⟨c.lastEmitted.insert view.id (now, some view.status)⟩
  match c.lastEmitted.get? view.id with
  | some (last, lastStatus) =>
      if lastStatus ≠ some view.status ∨ coalesceWindow ≤ now - last then (true, shown)
      else (false, c)
  | none => (true, shown)

/-- The gate passes a view, or the last one it passed had this status and is
less than a window old. -/
theorem SnapshotCoalescer.allow_cases (c : SnapshotCoalescer) (now : ℕ) (view : JobView δ) :
    c.allow now view = (true, ⟨c.lastEmitted.insert view.id (now, some view.status)⟩) ∨
    ∃ last, c.allow now view = (false, c) ∧
      c.lastEmitted.get? view.id = some (last, some view.status) ∧ now - last < coalesceWindow := by
  unfold allow
  rcases c.lastEmitted.get? view.id with _ | ⟨last, lastStatus⟩
  · exact .inl rfl
  · by_cases hpass : lastStatus ≠ some view.status ∨ coalesceWindow ≤ now - last
    · exact .inl (if_pos hpass)
    · rw [not_or, not_not, not_le] at hpass
      refine .inr ⟨last, if_neg ?_, by rw [hpass.1], hpass.2⟩
      rw [not_or, not_not, not_le]
      exact hpass

/-! ### The stream -/

/-- What is written to the stream. -/
inductive SseOutput (δ : Type*)
  | hello
  | snapshot (view : JobView δ)
  | degraded
  deriving DecidableEq, Repr

/-- A stream of one client, with what was published and written. -/
structure SseStream (δ : Type*) where
  published : List (JobView δ)
  rx : Receiver
  coalescer : SnapshotCoalescer
  clock : ℕ
  output : List (SseOutput δ)
  /-- The views that reached the stream, and when. -/
  received : List (ℕ × JobView δ)
  /-- The views among them that were emitted. -/
  emitted : List (ℕ × JobView δ)

/-- A view is published, or the stream is polled. -/
inductive SseEvent (δ : Type*)
  | publish (view : JobView δ)
  /-- The connection asks for the next event. -/
  | poll (now : ℕ)

namespace SseStream

variable (capacity : ℕ)

/-- The subscription is made before the hello. -/
def connect (published : List (JobView δ)) : SseStream δ :=
  ⟨published, subscribe published, ⟨.empty⟩, 0, [.hello], [], []⟩

/-- A view reaches the stream. -/
def receive (s : SseStream δ) (now : ℕ) (view : JobView δ) : SseStream δ :=
  let s := { s with received := s.received ++ [(now, view)] }
  let (allowed, coalescer) := s.coalescer.allow now view
  if allowed then
    { s with
      coalescer := coalescer
      output := s.output ++ [.snapshot view]
      emitted := s.emitted ++ [(now, view)] }
  else s

/-- One event. -/
def step (s : SseStream δ) : SseEvent δ → Option (SseStream δ)
  | .publish view => some { s with published := s.published ++ [view] }
  | .poll now =>
      -- the clock is monotone
      if now < s.clock then none
      else
        let s := { s with clock := now }
        match s.rx.tryRecv capacity s.published with
        | (.value view, rx) => some ({ s with rx := rx }.receive now view)
        | (.lagged, rx) => some { s with rx := rx, output := s.output ++ [.degraded] }
        | (.empty, _) => some s

/-- The view that was written, if it is one. -/
def viewOf : SseOutput δ → Option (JobView δ)
  | .snapshot view => some view
  | _ => none

/-- The views a client was shown, in order. -/
def shown (s : SseStream δ) : List (JobView δ) := s.output.filterMap viewOf

/-- The last of the timed views of a job. -/
def lastOf (job : ℕ) (l : List (ℕ × JobView δ)) : Option (ℕ × JobView δ) :=
  lastWith (fun e => e.2.id = job) l

/-! ### The invariant -/

variable {capacity} {s s' : SseStream δ}

/-- What is written comes from what was received, and that from what was
published. -/
structure Coalesced (capacity : ℕ) (s : SseStream δ) : Prop where
  sound : s.rx.Sound capacity s.published
  received : s.received.map (fun e => some e.2) = s.rx.taken.map fun p => s.published[p]?
  emitted : s.emitted.Sublist s.received
  shown : s.shown = s.emitted.map Prod.snd
  degraded : s.rx.skipped ≠ [] → .degraded ∈ s.output
  memory : ∀ job, s.coalescer.lastEmitted.get? job =
    (lastOf job s.emitted).map fun e => (e.1, some e.2.status)
  /-- The last view received was emitted, or refused because of the last one
  that was. -/
  last : ∀ job e, lastOf job s.received = some e → ∃ e', lastOf job s.emitted = some e' ∧
    (e' = e ∨ e'.2.status = e.2.status ∧ e.1 - e'.1 < coalesceWindow)

theorem lastOf_append (job now : ℕ) (view : JobView δ) (l : List (ℕ × JobView δ)) :
    lastOf job (l ++ [(now, view)]) = if view.id = job then some (now, view) else lastOf job l := by
  unfold lastOf
  rw [lastWith_append]
  simp only [decide_eq_true_eq]

/-- A view reaches the stream and passes or is refused. -/
theorem Coalesced.receive {rx : Receiver} {now : ℕ} {view : JobView δ} (h : Coalesced capacity s)
    (hsound : rx.Sound capacity s.published) (htaken : rx.taken = s.rx.taken ++ [s.rx.next])
    (hskipped : rx.skipped = s.rx.skipped) (hview : s.published[s.rx.next]? = some view) :
    Coalesced capacity ({ s with clock := now, rx := rx }.receive now view) := by
  have hreceived : (s.received ++ [(now, view)]).map (fun e => some e.2) =
      rx.taken.map fun p => s.published[p]? := by
    rw [htaken, List.map_append, List.map_append, h.received]
    exact congrArg _ (congrArg (fun x => [x]) hview.symm)
  rcases s.coalescer.allow_cases now view with hallow | ⟨last, hallow, hmem, hwindow⟩
  · simp only [SseStream.receive, hallow, if_true]
    refine ⟨hsound, hreceived, ?_, ?_, ?_, fun job => ?_, fun job e he => ?_⟩
    · exact h.emitted.append (List.Sublist.refl _)
    · show (s.output ++ [SseOutput.snapshot view]).filterMap viewOf = _
      rw [List.filterMap_append, List.map_append, ← h.shown]
      rfl
    · intro hne
      exact List.mem_append_left _ (h.degraded (hskipped ▸ hne))
    · show (s.coalescer.lastEmitted.insert view.id (now, some view.status)).get? job = _
      rw [SortedMap.get?_insert, lastOf_append, h.memory job]
      by_cases hjob : view.id = job
      · rw [if_pos hjob, if_pos hjob.symm]
        rfl
      · rw [if_neg hjob, if_neg (Ne.symm hjob)]
    · rw [lastOf_append] at he ⊢
      split_ifs at he ⊢
      · exact ⟨(now, view), rfl, .inl (Option.some.inj he)⟩
      · exact h.last job e he
  · simp only [SseStream.receive, hallow, Bool.false_eq_true, if_false]
    refine ⟨hsound, hreceived, ?_, h.shown, fun hne => h.degraded (hskipped ▸ hne), h.memory,
      fun job e he => ?_⟩
    · exact h.emitted.trans (List.sublist_append_left _ _)
    · rw [lastOf_append] at he
      split_ifs at he with hjob
      · -- the memory of the gate is the last view emitted
        rw [h.memory, hjob] at hmem
        obtain ⟨e', he', hpair⟩ := Option.map_eq_some_iff.mp hmem
        obtain ⟨htime, hstatus⟩ := Prod.mk.inj hpair
        rw [← Option.some.inj he]
        refine ⟨e', he', .inr ⟨Option.some.inj hstatus, ?_⟩⟩
        rw [htime]
        exact hwindow
      · exact h.last job e he

/-- **Every event of the stream keeps the order of what is written.** -/
theorem Coalesced.step (h : Coalesced capacity s) {e : SseEvent δ}
    (hs : s.step capacity e = some s') : Coalesced capacity s' := by
  cases e with
  | publish view =>
    rw [← Option.some.inj hs]
    refine { h with sound := h.sound.send view, received := ?_ }
    rw [h.received]
    refine List.map_congr_left fun p hp => ?_
    have hlt := (h.sound.taken_lt hp).trans_le h.sound.next_le
    exact (List.getElem?_append_left hlt).symm
  | poll now =>
    simp only [SseStream.step] at hs
    split_ifs at hs
    have hsound := h.sound.tryRecv
    rcases Receiver.tryRecv_cases capacity s.rx s.published with
      ⟨-, hrecv⟩ | ⟨view, -, hview, hrecv⟩ | ⟨-, hrecv⟩ <;> rw [hrecv] at hs hsound <;>
      rw [← Option.some.inj hs]
    · refine { h with sound := hsound, shown := ?_, degraded := fun _ => ?_ }
      · show (s.output ++ [SseOutput.degraded]).filterMap viewOf = _
        rw [List.filterMap_append, ← h.shown]
        exact List.append_nil _
      · exact List.mem_append_right _ (List.mem_singleton.mpr rfl)
    · exact h.receive hsound rfl rfl hview
    · exact { h with }

theorem coalesced_connect (published : List (JobView δ)) :
    Coalesced capacity (connect published) where
  sound := Receiver.sound_subscribe published
  received := rfl
  emitted := List.Sublist.refl _
  shown := rfl
  degraded hne := absurd rfl hne
  memory _ := rfl
  last job e he := by cases he

/-! ### Catching up -/

/-- Polling receives or skips something, until nothing is left. -/
theorem pending_poll {now : ℕ} (hs : s.step capacity (.poll now) = some s') :
    s'.published = s.published ∧
      s'.rx.pending s'.published ≤ s.rx.pending s.published - 1 := by
  simp only [step] at hs
  split_ifs at hs
  rcases Receiver.tryRecv_cases capacity s.rx s.published with
    ⟨hlag, hrecv⟩ | ⟨view, -, hview, hrecv⟩ | ⟨hlen, hrecv⟩ <;> rw [hrecv] at hs <;>
    rw [← Option.some.inj hs]
  · refine ⟨rfl, ?_⟩
    unfold Receiver.pending
    dsimp only
    unfold oldest at hlag ⊢
    omega
  · have hsame : ∀ s₁ : SseStream δ, (s₁.receive now view).published = s₁.published ∧
        (s₁.receive now view).rx = s₁.rx := by
      intro s₁
      rcases s₁.coalescer.allow_cases now view with hallow | ⟨last, hallow, -, -⟩ <;>
        simp [receive, hallow]
    rw [(hsame _).1, (hsame _).2]
    refine ⟨rfl, ?_⟩
    unfold Receiver.pending
    dsimp only
    omega
  · refine ⟨rfl, ?_⟩
    unfold Receiver.pending
    dsimp only
    omega

/-- Enough polling catches up with what is published. -/
theorem pending_polls {nows : List ℕ}
    (hrun : runEvents (step capacity) s (nows.map .poll) = some s') :
    s'.rx.pending s'.published ≤ s.rx.pending s.published - nows.length := by
  induction nows generalizing s with
  | nil =>
    rw [← Option.some.inj hrun]
    exact le_rfl
  | cons now nows ih =>
    obtain ⟨s₁, hs₁, hrest⟩ := Option.bind_eq_some_iff.mp hrun
    obtain ⟨-, hle⟩ := pending_poll hs₁
    have hle' := ih hrest
    rw [List.length_cons]
    omega

/-- The last view of a job that was published since the subscription and not
dropped by the broker is the last one received. -/
theorem Coalesced.lastOf_received (h : Coalesced capacity s) {p : ℕ} {view : JobView δ}
    (hdrained : s.rx.next = s.published.length) (hp : s.published[p]? = some view)
    (hlast : ∀ q w, p < q → s.published[q]? = some w → w.id ≠ view.id)
    (hfirst : s.rx.first ≤ p) (hskip : p ∉ s.rx.skipped) :
    ∃ now, lastOf view.id s.received = some (now, view) := by
  have hlt := (List.getElem?_eq_some_iff.mp hp).1
  have htaken : p ∈ s.rx.taken :=
    ((h.sound.taken_iff p).mpr ⟨hfirst, hdrained ▸ hlt⟩).resolve_right hskip
  -- split what was taken at that position, and what was received with it
  obtain ⟨before, after, hsplit⟩ := List.append_of_mem htaken
  have hreceived := h.received
  have hordered := h.sound.ordered
  rw [hsplit] at hreceived hordered
  rw [List.map_append, List.map_cons] at hreceived
  obtain ⟨r₁, r₂, hr, -, hr₂⟩ := List.map_eq_append_iff.mp hreceived
  obtain ⟨e, r₃, rfl, he, hr₃⟩ := List.map_eq_cons_iff.mp hr₂
  rw [hp] at he
  obtain ⟨now, view'⟩ := e
  cases he
  refine ⟨now, ?_⟩
  rw [hr]
  refine lastWith_eq_some (decide_eq_true rfl) fun b hb => decide_eq_false ?_
  have hmem : some b.2 ∈ after.map fun q => s.published[q]? := by
    rw [← hr₃]
    exact List.mem_map.mpr ⟨b, hb, rfl⟩
  obtain ⟨q, hq, hbq⟩ := List.mem_map.mp hmem
  have hpq : p < q := (List.pairwise_cons.mp (List.pairwise_append.mp hordered).2.1).1 q hq
  exact hlast q b.2 hpq hbq

/-- **Coalescing.**  On every stream, at any time:

* the views shown are among the published ones, in the order of publication;
* if the broker dropped a view, the client was told so;
* when the stream has caught up, the last view published of a job, unless the
  broker dropped it, is the last one shown, or has its status and came less
  than a window after it;
* polling catches up with what is published. -/
theorem sse_coalescing (capacity : ℕ) {published : List (JobView δ)} {s : SseStream δ}
    (h : Reach (step capacity) (fun _ _ => True) (· = connect published) s) :
    (∃ positions : List ℕ, positions.Pairwise (· < ·) ∧
      s.shown.map some = positions.map fun p => s.published[p]?) ∧
    (s.rx.skipped ≠ [] → .degraded ∈ s.output) ∧
    (s.rx.next = s.published.length → ∀ p view, s.published[p]? = some view →
      (∀ q w, p < q → s.published[q]? = some w → w.id ≠ view.id) → s.rx.first ≤ p →
      p ∉ s.rx.skipped →
      ∃ now last, lastOf view.id s.received = some (now, view) ∧
        lastOf view.id s.emitted = some last ∧
        lastWith (fun v => v.id = view.id) s.shown = some last.2 ∧
        (last.2 = view ∨ last.2.status = view.status ∧ now - last.1 < coalesceWindow)) ∧
    ∀ (nows : List ℕ) (s' : SseStream δ), s.rx.pending s.published ≤ nows.length →
      runEvents (step capacity) s (nows.map .poll) = some s' →
      s'.rx.next = s'.published.length := by
  have hinv : Coalesced capacity s :=
    Reach.invariant (fun s₀ h₀ => h₀ ▸ coalesced_connect published)
      (fun s₁ e s₂ h₁ _ hs => h₁.step hs) h
  refine ⟨?_, hinv.degraded, fun hdrained p view hp hlast hfirst hskip => ?_,
    fun nows s' hle hrun => ?_⟩
  · have hsub : (s.emitted.map fun e => some e.2).Sublist
        (s.rx.taken.map fun p => s.published[p]?) := by
      rw [← hinv.received]
      exact hinv.emitted.map _
    obtain ⟨positions, hpositions, hmap⟩ := List.sublist_map_iff.mp hsub
    refine ⟨positions, hinv.sound.ordered.sublist hpositions, ?_⟩
    rw [hinv.shown, List.map_map]
    exact hmap
  · obtain ⟨now, hreceived⟩ := hinv.lastOf_received hdrained hp hlast hfirst hskip
    obtain ⟨last, hemitted, hrel⟩ := hinv.last view.id _ hreceived
    refine ⟨now, last, hreceived, hemitted, ?_, hrel.imp_left fun heq => by rw [heq]⟩
    rw [hinv.shown, lastWith_map]
    exact Option.map_eq_some_iff.mpr ⟨last, hemitted, rfl⟩
  · have hinv' : Coalesced capacity s' :=
      Reach.invariant (fun s₀ h₀ => h₀ ▸ coalesced_connect published)
        (fun s₁ e s₂ h₁ _ hs => h₁.step hs) (h.of_run runOk_true hrun)
    have hpending := pending_polls hrun
    have hnext := hinv'.sound.next_le
    unfold Receiver.pending at hpending hle
    omega

/-- A sample of an active job. -/
def sampled (job seq : ℕ) : JobView Unit := ⟨job, .active, .running, 1, some 0, seq, none⟩

/-- Two samples of a job, a quarter of a second apart. -/
def unhurried : List (SseEvent Unit) :=
  [.publish (sampled 0 1), .poll 0, .publish (sampled 0 2), .poll coalesceWindow]

/-- Two samples that come apart are both shown. -/
theorem sse_coalescing_unhurried :
    ∃ s, runEvents (step 256) (connect []) unhurried = some s ∧
      s.shown = [sampled 0 1, sampled 0 2] ∧
      ∃ positions : List ℕ, positions.Pairwise (· < ·) ∧
        s.shown.map some = positions.map fun p => s.published[p]? := by
  have hend : ((runEvents (step 256) (connect []) unhurried).map shown) =
      some [sampled 0 1, sampled 0 2] := by decide
  obtain ⟨s, hrun, hs⟩ := Option.map_eq_some_iff.mp hend
  have hreach : Reach (step 256) (fun _ _ => True) (· = connect []) s :=
    .of_run (.start rfl) runOk_true hrun
  exact ⟨s, hrun, hs, (sse_coalescing 256 hreach).1⟩

/-- A sample a tenth of a second after the first is not shown, however long the
client waits; and the last view of a job is lost when the broker drops it. -/
theorem last_view_not_shown :
    (∃ s, Reach (step 256) (fun _ _ => True) (· = connect []) s ∧
      s.published = [sampled 0 1, sampled 0 2] ∧ s.rx.next = 2 ∧ s.rx.skipped = [] ∧
      s.clock = 10 * coalesceWindow ∧ s.shown = [sampled 0 1]) ∧
    ∃ s, Reach (step 1) (fun _ _ => True) (· = connect []) s ∧
      s.published = [sampled 0 1, sampled 1 1] ∧ s.rx.next = 2 ∧ s.shown = [sampled 1 1] := by
  constructor
  · have hend : ((runEvents (step 256) (connect [])
        [.publish (sampled 0 1), .poll 0, .publish (sampled 0 2), .poll 100000000,
          .poll (10 * coalesceWindow)]).map fun s =>
        (s.published, s.rx.next, s.rx.skipped, s.clock, s.shown)) =
        some ([sampled 0 1, sampled 0 2], 2, [], 10 * coalesceWindow, [sampled 0 1]) := by decide
    obtain ⟨s, hrun, hs⟩ := Option.map_eq_some_iff.mp hend
    simp only [Prod.mk.injEq] at hs
    exact ⟨s, .of_run (.start rfl) runOk_true hrun, hs⟩
  · have hend : ((runEvents (step 1) (connect [])
        [.publish (sampled 0 1), .publish (sampled 1 1), .poll 0, .poll 0]).map fun s =>
        (s.published, s.rx.next, s.shown)) =
        some ([sampled 0 1, sampled 1 1], 2, [sampled 1 1]) := by decide
    obtain ⟨s, hrun, hs⟩ := Option.map_eq_some_iff.mp hend
    simp only [Prod.mk.injEq] at hs
    exact ⟨s, .of_run (.start rfl) runOk_true hrun, hs⟩

end SseStream

end KDown
