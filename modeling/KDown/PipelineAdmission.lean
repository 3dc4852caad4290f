/-
KDown/PipelineAdmission.lean

Pipelined workers on one transfer-memory ledger (job/segmented.rs).

A worker reserves one frame quantum before it reads, grows the reservation
when the frame is larger, reconciles it when it is smaller, submits the write
and keeps the reservation until it settles the completion.  It settles
completions only between two reads: not while it waits inside `reserve` or
`grow`.

Waiting for a pool while holding bytes of the same pool is what the module
documentation of the ledger rules out and what the workers do:
`growers_deadlock` runs two workers into it on a validated configuration.
When no worker goes to sleep in a pool's queue while it holds a reservation,
no reachable state is stuck (`admission_progress`).
-/
import KDown.LedgerAdmission

namespace KDown

/-- Where a worker goes on when a reservation has been dropped. -/
inductive ResumeAt
  | top
  | reading (k : ℕ)
  | draining
  | aborting
  deriving DecidableEq, Repr

/-- Where a worker stands; numbers are handles of the ledger. -/
inductive PipelinePhase
  | absent
  /-- Head of the body loop, without a pre-read reservation. -/
  | top
  | reserving (k : ℕ)
  /-- Waits for a frame and holds the pre-read reservation. -/
  | reading (k : ℕ)
  | growing (k len : ℕ)
  /-- Reconciles the reservation and then submits the write. -/
  | reconciling (k : ℕ)
  | dropping (k : ℕ) (next : ResumeAt)
  | draining
  /-- Gives up: its reservations are dropped with it. -/
  | aborting
  | finished
  deriving DecidableEq, Repr

/-- A worker, with the reservations of its submitted writes. -/
structure PipelinedWorker where
  job : ℕ
  phase : PipelinePhase
  /-- Submitted writes: the reservation, and whether the completion is
  there. -/
  submitted : List (ℕ × Bool)
  deriving DecidableEq, Repr

/-- What a worker does next. -/
inductive PipelineAct
  | spawn (j : ℕ)
  | reserve
  /-- A frame of which the worker owns `len` bytes. -/
  | frame (len : ℕ)
  /-- The body or the lease ends. -/
  | bodyEnd
  | submit (last : Bool)
  /-- The executor completes the write of reservation `k`. -/
  | complete (k : ℕ)
  | settle (k : ℕ)
  | nextBody
  | finish
  | abort
  | discard (k : ℕ)
  /-- The operation under way on the ledger takes its next step. -/
  | advance
  /-- It has ended. -/
  | resume
  /-- The waiting future is dropped. -/
  | cancel
  deriving DecidableEq

/-- Where a worker goes on after a drop. -/
def ResumeAt.phase : ResumeAt → PipelinePhase
  | .top => .top
  | .reading k => .reading k
  | .draining => .draining
  | .aborting => .aborting

/-- A completion is settled here, and then the worker goes on. -/
def PipelinePhase.settles : PipelinePhase → Option ResumeAt
  | .top => some .top
  | .reading k => some (.reading k)
  | .draining => some .draining
  | _ => none

/-- The reservation whose operation the worker awaits. -/
def PipelinePhase.operates : PipelinePhase → Option ℕ
  | .reserving k => some k
  | .growing k _ => some k
  | .reconciling k => some k
  | .dropping k _ => some k
  | _ => none

/-- The worker is inside `reserve` or `grow`. -/
def PipelinePhase.waiting : PipelinePhase → Option ℕ
  | .reserving k => some k
  | .growing k _ => some k
  | _ => none

namespace PipelinedWorker

/-- What the submitted writes hold. -/
def held (l : TransferLedger) (u : PipelinedWorker) : ℕ :=
  (u.submitted.map fun x => ((l.handle x.1).live.map TransferReservation.bytes).getD 0).sum

/-- The worker moves on. -/
def goto (u : PipelinedWorker) (ph : PipelinePhase) : PipelinedWorker := { u with phase := ph }

/-- The worker drops reservation `k`. -/
def dropping (u : PipelinedWorker) (k : ℕ) (next : ResumeAt) :
    Option LedgerEvent × PipelinedWorker :=
  (some (.drop k),
    { u with phase := .dropping k next, submitted := u.submitted.filter fun x => x.1 ≠ k })

/-- What a worker asks of the ledger and where it goes. -/
def react (cap : PoolId → ℕ) (engine : BudgetEngineConfig) (l : TransferLedger)
    (u : PipelinedWorker) : PipelineAct → Option (Option LedgerEvent × PipelinedWorker)
  | .spawn j => if u.phase = .absent then some (none, ⟨j, .top, []⟩) else none
  | .reserve =>
      if u.phase = .top ∧ u.held l + engine.readBufferSize ≤ engine.workerReadAheadBytes then
        -- the refusal of an oversize request is fatal
        if tightestCap cap u.job .writer < engine.readBufferSize then
          some (none, u.goto .aborting)
        else some (some (.reserve u.job .writer engine.readBufferSize), u.goto (.reserving l.size))
      else none
  | .frame len =>
      match u.phase with
      | .reading k =>
          match (l.handle k).live with
          | none => none
          | some r =>
              if len = 0 then none
              else if r.bytes < len then
                some (some (.grow k (len - r.bytes)), u.goto (.growing k len))
              else some (some (.reconcile k len), u.goto (.reconciling k))
      | _ => none
  | .bodyEnd =>
      match u.phase with
      | .reading k => some (u.dropping k .draining)
      | _ => none
  | .submit last =>
      match u.phase with
      | .reconciling k =>
          if (l.handle k).work = .idle then
            some (none,
              { u with
                phase := if last then .draining else .top
                submitted := u.submitted ++ [(k, false)] })
          else none
      | _ => none
  | .complete k =>
      if (k, false) ∈ u.submitted then
        some (none, { u with submitted := u.submitted.map fun x => (x.1, x.2 || x.1 == k) })
      else none
  | .settle k =>
      match u.phase.settles with
      | some next => if (k, true) ∈ u.submitted then some (u.dropping k next) else none
      | none => none
  | .nextBody => if u.phase = .draining ∧ u.submitted = [] then some (none, u.goto .top) else none
  | .finish =>
      if (u.phase = .draining ∨ u.phase = .aborting) ∧ u.submitted = [] then
        some (none, u.goto .finished)
      else none
  | .abort =>
      match u.phase with
      | .top => some (none, u.goto .aborting)
      | .draining => some (none, u.goto .aborting)
      | .reading k => some (u.dropping k .aborting)
      | .reconciling k =>
          if (l.handle k).work = .idle then some (u.dropping k .aborting) else none
      | _ => none
  | .discard k =>
      if u.phase = .aborting ∧ k ∈ u.submitted.map Prod.fst then some (u.dropping k .aborting)
      else none
  | .advance => u.phase.operates.map fun k => (some (.advance k), u)
  | .resume =>
      match u.phase with
      | .reserving k =>
          if (l.handle k).work = .idle then
            -- a reservation that was not made had its future dropped
            if (l.handle k).live = none then some (none, u.goto .aborting)
            else some (none, u.goto (.reading k))
          else none
      | .growing k len =>
          if (l.handle k).work = .idle then
            if (l.handle k).live.map TransferReservation.bytes = some len then
              some (some (.reconcile k len), u.goto (.reconciling k))
            else some (u.dropping k .aborting)
          else none
      | .dropping k next =>
          if (l.handle k).work = .idle then some (none, u.goto next.phase) else none
      | _ => none
  | .cancel => u.phase.waiting.map fun k => (some (.cancel k), u)

end PipelinedWorker

/-- The ledger does what it is asked, if anything. -/
def TransferLedger.obey (cap : PoolId → ℕ) (l : TransferLedger) :
    Option LedgerEvent → Option TransferLedger
  | none => some l
  | some e => l.step cap e

/-- The ledger and the workers that use it. -/
structure PipelineState where
  ledger : TransferLedger
  worker : ℕ → PipelinedWorker

namespace PipelineState

/-- A ledger, and no worker. -/
def new (cap : PoolId → ℕ) : PipelineState where
  ledger := .new cap
  worker := fun _ => ⟨0, .absent, []⟩

/-- Worker `e.1` acts. -/
def step (cap : PoolId → ℕ) (engine : BudgetEngineConfig) (s : PipelineState)
    (e : ℕ × PipelineAct) : Option PipelineState := do
  let (asked, u) ← (s.worker e.1).react cap engine s.ledger e.2
  let l ← s.ledger.obey cap asked
  some ⟨l, Function.update s.worker e.1 u⟩

end PipelineState

/-! ### Who owns which reservation -/

/-- The reservations that a phase holds. -/
def PipelinePhase.handles : PipelinePhase → List ℕ
  | .reserving k => [k]
  | .reading k => [k]
  | .growing k _ => [k]
  | .reconciling k => [k]
  | .dropping k (.reading k') => [k, k']
  | .dropping k _ => [k]
  | _ => []

/-- The reservations of a worker. -/
def PipelinedWorker.handles (u : PipelinedWorker) : List ℕ :=
  u.submitted.map Prod.fst ++ u.phase.handles

/-- Nothing runs on the handle and it holds nothing. -/
def TransferLedger.Free (l : TransferLedger) (k : ℕ) : Prop :=
  (l.handle k).live = none ∧ (l.handle k).work = .idle

/-- The worker's own books are in order. -/
structure PipelinedWorker.WorkerInv (l : TransferLedger) (u : PipelinedWorker) : Prop where
  nodup : u.handles.Nodup
  lt_size : ∀ k ∈ u.handles, k < l.size
  dropped : ∀ k next, u.phase = .dropping k next →
    (l.handle k).live = none ∧ (l.handle k).work.isAcquiring = false
  /-- Who sleeps holds nothing. -/
  asleep : ∀ k, u.phase.waiting = some k → ∀ p m, (l.handle k).work.current = some (p, m) →
    (l.pool p).phases (k, m) = .parked → u.submitted = [] ∧ (l.handle k).live = none
  ended : u.phase = .absent ∨ u.phase = .finished → u.submitted = []

/-- What an act of worker `u` leaves behind. -/
structure PipelinedWorker.ReactSpec (l l' : TransferLedger) (u u' : PipelinedWorker) : Prop where
  size_le : l.size ≤ l'.size
  same : ∀ k, k ∉ u.handles → k < l.size → l.SameHandle l' k
  inv : u'.WorkerInv l'
  /-- A new reservation has a handle of its own. -/
  new : ∀ k ∈ u'.handles, k ∈ u.handles ∨ l.size ≤ k
  /-- A reservation that the worker lets go is gone. -/
  lost : ∀ k, k ∉ u'.handles → k ∈ u.handles ∨ l.size ≤ k → l'.Free k

namespace PipelinedWorker

open TransferLedger (LedgerInv)

variable {cap : PoolId → ℕ} {engine : BudgetEngineConfig} {l l' : TransferLedger}
  {u u' : PipelinedWorker} {k : ℕ}

theorem mem_handles_of_waiting (h : u.phase.waiting = some k) : k ∈ u.handles := by
  rcases hph : u.phase with - | - | k' | k' | ⟨k', len⟩ | k' | ⟨k', next⟩ | - | - | - <;>
    rw [hph] at h <;> cases h
  all_goals exact List.mem_append_right _ (by rw [hph]; exact List.mem_singleton_self _)

theorem mem_handles_of_operates (h : u.phase.operates = some k) : k ∈ u.handles := by
  rcases hph : u.phase with - | - | k' | k' | ⟨k', len⟩ | k' | ⟨k', - | k'' | - | -⟩ | - | - | - <;>
    rw [hph] at h <;> cases h
  all_goals exact List.mem_append_right _ (by rw [hph]; exact List.mem_cons_self)

/-- The books of a worker are about its own handles. -/
theorem WorkerInv.congr (h : u.WorkerInv l) (hsize : l.size ≤ l'.size)
    (hsame : ∀ k ∈ u.handles, l.SameHandle l' k) : u.WorkerInv l' where
  nodup := h.nodup
  lt_size := fun k hk => (h.lt_size k hk).trans_le hsize
  dropped := fun k next hph => by
    rw [(hsame k (mem_handles_of_operates (by rw [hph]; rfl))).1]
    exact h.dropped k next hph
  asleep := fun k hk p m hcur hparked => by
    obtain ⟨hhandle, hphases⟩ := hsame k (mem_handles_of_waiting hk)
    rw [hhandle] at hcur ⊢
    rw [hphases] at hparked
    exact h.asleep k hk p m hcur hparked
  ended := h.ended

theorem waiting_of_operates (h : u.phase.operates = none) : u.phase.waiting = none := by
  rcases hph : u.phase <;> rw [hph] at h <;> first | rfl | cases h

/-- An act without the ledger: the worker only goes on. -/
theorem ReactSpec.of_none (hi : LedgerInv cap l) (h : u.WorkerInv l)
    (ho : l.obey cap none = some l') (hnodup : u'.handles.Nodup)
    (hsub : ∀ k ∈ u'.handles, k ∈ u.handles) (hlost : ∀ k ∈ u.handles, k ∉ u'.handles → l.Free k)
    (hoperates : u'.phase.operates = none ∨
      u'.phase = u.phase ∧ (u.submitted = [] → u'.submitted = []))
    (hended : u'.phase = .absent ∨ u'.phase = .finished → u'.submitted = []) :
    ReactSpec l l' u u' := by
  rw [← Option.some.inj ho]
  refine ⟨le_rfl, fun k _ _ => ⟨rfl, fun _ _ => rfl⟩, ?_, fun k hk => .inl (hsub k hk), ?_⟩
  · refine ⟨hnodup, fun k hk => h.lt_size k (hsub k hk), ?_, ?_, hended⟩
    · intro k next hph
      rcases hoperates with hno | ⟨hsame, -⟩
      · rw [hph] at hno
        cases hno
      · exact h.dropped k next (hsame ▸ hph)
    · intro k hk p m hcur hparked
      rcases hoperates with hno | ⟨hsame, hempty⟩
      · rw [waiting_of_operates hno] at hk
        cases hk
      · obtain ⟨hsub', hlive⟩ := h.asleep k (hsame ▸ hk) p m hcur hparked
        exact ⟨hempty hsub', hlive⟩
  · intro k hk hor
    rcases hor with hmem | hsize
    · exact hlost k hmem hk
    · exact hi.unused k hsize

/-- An act with the ledger: the worker keeps what it has. -/
theorem ReactSpec.of_step (hi : LedgerInv cap l) (h : u.WorkerInv l) {e : LedgerEvent}
    (hs : l.step cap e = some l') (hold : l.subject e ∈ u.handles ∨ l.subject e = l.size)
    (hlt : l.subject e < l'.size) (hnodup : u'.handles.Nodup)
    (hmem : ∀ k, k ∈ u'.handles ↔ k ∈ u.handles ∨ k = l.subject e)
    (hdropped : ∀ k next, u'.phase = .dropping k next →
      (l'.handle k).live = none ∧ (l'.handle k).work.isAcquiring = false)
    (hasleep : ∀ k, u'.phase.waiting = some k → k = l.subject e ∧
      (l.WillPark k → u'.submitted = [] ∧ (l.handle k).live = none))
    (hended : u'.phase = .absent ∨ u'.phase = .finished → u'.submitted = []) :
    ReactSpec l l' u u' := by
  have hstep := TransferLedger.handleStep_of_step hi hs
  refine ⟨hstep.size_le, fun k hk hsize => hstep.same k ?_, ?_, fun k hk => ?_, fun k hk hor => ?_⟩
  · rintro rfl
    rcases hold with hin | heq
    · exact hk hin
    · exact absurd heq (Nat.ne_of_lt hsize)
  · refine ⟨hnodup, fun k hk => ?_, hdropped, fun k hk p m hcur hparked => ?_, hended⟩
    · rcases (hmem k).mp hk with hin | rfl
      · exact (h.lt_size k hin).trans_le hstep.size_le
      · exact hlt
    · obtain ⟨rfl, hsleep⟩ := hasleep k hk
      obtain ⟨hpark, hlive⟩ := hstep.parked p m hcur hparked
      obtain ⟨hempty, hnone⟩ := hsleep hpark
      exact ⟨hempty, hlive.trans hnone⟩
  · rcases (hmem k).mp hk with hin | rfl
    · exact .inl hin
    · exact hold.imp id fun heq => heq.ge
  · have hne : k ≠ l.subject e := fun heq => hk ((hmem k).mpr (.inr heq))
    rcases hor with hin | hsize
    · exact absurd ((hmem k).mpr (.inl hin)) hk
    · obtain ⟨hlive, hidle⟩ := hi.unused k hsize
      rw [TransferLedger.Free, (hstep.same k hne).1]
      exact ⟨hlive, hidle⟩

theorem handles_dropping (k : ℕ) (next : ResumeAt) :
    (PipelinePhase.dropping k next).handles = k :: next.phase.handles := by
  rcases next <;> rfl

/-- A reservation of the worker is dropped; `rest` is what its phase keeps. -/
theorem ReactSpec.of_drop (hi : LedgerInv cap l) (h : u.WorkerInv l) {next : ResumeAt}
    {asked : Option LedgerEvent} (hd : u.dropping k next = (asked, u'))
    (ho : l.obey cap asked = some l') (hk : k ∈ u.handles) (hnot : k ∉ next.phase.handles)
    (hsub : next.phase.handles.Sublist u.phase.handles)
    (hrest : ∀ k' ∈ u.phase.handles, k' = k ∨ k' ∈ next.phase.handles) :
    ReactSpec l l' u u' := by
  obtain ⟨rfl, rfl⟩ := Prod.mk.inj hd
  obtain ⟨hsubmitted, hphase, hdisj⟩ := List.nodup_append.mp h.nodup
  have hfilter : ∀ k', k' ∈ (u.submitted.filter fun x => x.1 ≠ k).map Prod.fst ↔
      k' ∈ u.submitted.map Prod.fst ∧ k' ≠ k := by
    intro k'
    simp only [List.mem_map, List.mem_filter, decide_eq_true_eq]
    constructor
    · rintro ⟨x, ⟨hx, hne⟩, rfl⟩
      exact ⟨⟨x, hx, rfl⟩, hne⟩
    · rintro ⟨⟨x, hx, rfl⟩, hne⟩
      exact ⟨x, ⟨hx, hne⟩, rfl⟩
  have hs : l.step cap (.drop k) = some l' := ho
  obtain ⟨r, hlive, hidle, rfl⟩ := TransferLedger.onLive_cases hs
  refine .of_step hi h hs (.inl hk) (h.lt_size k hk) ?_ ?_ ?_ ?_ ?_
  · rw [handles, handles_dropping]
    refine List.nodup_append.mpr ⟨hsubmitted.sublist (List.filter_sublist.map _), ?_, ?_⟩
    · exact List.nodup_cons.mpr ⟨hnot, hphase.sublist hsub⟩
    · intro a ha b hb
      obtain ⟨hin, hne⟩ := (hfilter a).mp ha
      rcases List.mem_cons.mp hb with rfl | hb
      · exact hne
      · exact hdisj a hin b (hsub.subset hb)
  · intro k'
    show k' ∈ handles _ ↔ k' ∈ u.handles ∨ k' = k
    rw [handles, handles_dropping, List.mem_append, hfilter, List.mem_cons, handles,
      List.mem_append]
    constructor
    · rintro (⟨hin, -⟩ | rfl | hin)
      · exact .inl (.inl hin)
      · exact .inr rfl
      · exact .inl (.inr (hsub.subset hin))
    · rintro ((hin | hin) | rfl)
      · by_cases hkk : k' = k
        · exact .inr (.inl hkk)
        · exact .inl ⟨hin, hkk⟩
      · exact .inr (hrest k' hin)
      · exact .inr (.inl rfl)
  · intro k' next' hph
    obtain ⟨rfl, -⟩ := PipelinePhase.dropping.inj hph
    rw [TransferLedger.drop, TransferLedger.handle_setHandle_self]
    exact ⟨rfl, rfl⟩
  · intro k' hk'
    cases hk'
  · rintro (hph | hph) <;> cases hph

/-- A cancelled call is not about to fall asleep. -/
theorem not_willPark_of_cancel (hs : l.step cap (.cancel k) = some l') : ¬ l.WillPark k := by
  rintro ⟨p, m, hcur, hpoll, -⟩
  simp only [TransferLedger.step] at hs
  rcases hw : (l.handle k).work with - | ⟨goal, n, taken, - | ⟨q, todo⟩, - | m'⟩ |
    ⟨n, todo, call⟩ <;> rw [hw] at hs hcur
  · cases hs
  · cases hs
  · cases hs
  · cases hs
  · cases hcur
    obtain ⟨q', hq, -⟩ := Option.map_eq_some_iff.mp hs
    have hph := (PoolSystem.balanced_of_cancel hq).2
    simp only [PoolSystem.step, show ((l.pool p).call (k, m)).phase = .polling from hpoll] at hq
    cases hq
  · cases hs

/-- An operation on the reservation of the phase, which stays in its place. -/
theorem ReactSpec.of_phase (hi : LedgerInv cap l) (h : u.WorkerInv l) {e : LedgerEvent}
    (ph : PipelinePhase) (hs : l.step cap e = some l') (hk : l.subject e = k)
    (hhandles : ph.handles = u.phase.handles) (hmem : k ∈ u.handles)
    (hdropped : ∀ k next, ph = .dropping k next →
      (l'.handle k).live = none ∧ (l'.handle k).work.isAcquiring = false)
    (hasleep : ∀ k', ph.waiting = some k' → k' = k ∧
      (l.WillPark k → u.submitted = [] ∧ (l.handle k).live = none))
    (hended : ph = .absent ∨ ph = .finished → u.submitted = []) :
    ReactSpec l l' u (u.goto ph) := by
  have heq : (u.goto ph).handles = u.handles := by
    rw [handles, handles, ← hhandles]
    rfl
  subst hk
  have hsize := (TransferLedger.handleStep_of_step hi hs).size_le
  refine .of_step hi h hs (.inl hmem) ((h.lt_size _ hmem).trans_le hsize) ?_ ?_ hdropped ?_ hended
  · rw [heq]
    exact h.nodup
  · intro k'
    rw [heq]
    exact ⟨.inl, fun hor => hor.elim id fun he => he ▸ hmem⟩
  · intro k' hk'
    obtain ⟨rfl, hsleep⟩ := hasleep k' hk'
    exact ⟨rfl, hsleep⟩

/-- Nothing sleeps on a handle without an operation. -/
theorem not_willPark_of_idle (hidle : (l.handle k).work = .idle) : ¬ l.WillPark k := by
  rintro ⟨p, m, hcur, -⟩
  rw [hidle] at hcur
  cases hcur

theorem handles_of_phase {ph : PipelinePhase} (hph : u.phase = ph) :
    u.handles = u.submitted.map Prod.fst ++ ph.handles := by rw [handles, hph]

/-- The worker goes where no operation is under way. -/
theorem ReactSpec.of_goto (hi : LedgerInv cap l) (h : u.WorkerInv l) {ph : PipelinePhase}
    (ho : l.obey cap none = some l') (hop : ph.operates = none)
    (hsub : ph.handles.Sublist u.phase.handles)
    (hlost : ∀ k ∈ u.phase.handles, k ∉ ph.handles → l.Free k)
    (hended : ph = .absent ∨ ph = .finished → u.submitted = []) :
    ReactSpec l l' u (u.goto ph) := by
  have hsub' : (u.goto ph).handles.Sublist u.handles := (List.Sublist.refl _).append hsub
  refine .of_none hi h ho (h.nodup.sublist hsub') hsub'.subset (fun k hk hnot => ?_) (.inl hop)
    hended
  rcases List.mem_append.mp hk with hin | hin
  · exact absurd (List.mem_append_left _ hin) hnot
  · exact hlost k hin fun hin' => hnot (List.mem_append_right _ hin')

/-- A submitted write is dropped between two reads. -/
theorem ReactSpec.of_settle (hi : LedgerInv cap l) (h : u.WorkerInv l) {next : ResumeAt}
    {asked : Option LedgerEvent} (hd : u.dropping k next = (asked, u'))
    (ho : l.obey cap asked = some l') (hk : k ∈ u.submitted.map Prod.fst)
    (hnext : next.phase.handles = u.phase.handles) : ReactSpec l l' u u' := by
  have hnot : k ∉ u.phase.handles :=
    fun hin => (List.nodup_append.mp h.nodup).2.2 k hk k hin rfl
  refine .of_drop hi h hd ho (List.mem_append_left _ hk) (hnext ▸ hnot) (hnext ▸ .refl _) ?_
  intro k' hk'
  rw [hnext]
  exact .inr hk'

/-- The reservation of the phase is dropped. -/
theorem ReactSpec.of_give_up (hi : LedgerInv cap l) (h : u.WorkerInv l) {next : ResumeAt}
    {asked : Option LedgerEvent} (hd : u.dropping k next = (asked, u'))
    (ho : l.obey cap asked = some l') (hk : u.phase.handles = [k])
    (hnext : next.phase.handles = []) : ReactSpec l l' u u' := by
  refine .of_drop hi h hd ho (List.mem_append_right _ (by rw [hk]; exact List.mem_singleton_self _))
    (hnext ▸ List.not_mem_nil) (hnext ▸ List.nil_sublist _) ?_
  intro k' hk'
  rw [hk] at hk'
  exact .inl (List.mem_singleton.mp hk')

/-- A new reservation begins. -/
theorem ReactSpec.of_reserve (hi : LedgerInv cap l) (h : u.WorkerInv l) {n : ℕ}
    (hph : u.phase = .top) (hfits : ¬ tightestCap cap u.job .writer < n)
    (hs : l.step cap (.reserve u.job .writer n) = some l') :
    ReactSpec l l' u (u.goto (.reserving l.size)) := by
  have hsize : l.size < l'.size := by
    rw [← Option.some.inj hs, TransferLedger.reserve, if_neg hfits]
    exact Nat.lt_succ_self _
  have hold : u.handles = u.submitted.map Prod.fst := by
    rw [handles_of_phase hph]
    exact List.append_nil _
  have hnew : (u.goto (.reserving l.size)).handles = u.submitted.map Prod.fst ++ [l.size] := rfl
  refine .of_step hi h hs (.inr rfl) hsize ?_ ?_ ?_ ?_ ?_
  · rw [hnew]
    refine List.nodup_append.mpr ⟨hold ▸ h.nodup, List.nodup_singleton _, ?_⟩
    intro a ha b hb
    rw [List.mem_singleton.mp hb]
    exact Nat.ne_of_lt (h.lt_size a (hold ▸ ha))
  · intro k
    rw [hnew, hold, List.mem_append, List.mem_singleton]
    rfl
  · intro k next hph
    cases hph
  · intro k hk
    obtain rfl : l.size = k := Option.some.inj hk
    exact ⟨rfl, fun hpark => absurd hpark (not_willPark_of_idle (hi.unused l.size le_rfl).2)⟩
  · rintro (hph | hph) <;> cases hph

/-- An operation begins on the reservation of the phase. -/
theorem ReactSpec.of_begin (hi : LedgerInv cap l) (h : u.WorkerInv l) {e : LedgerEvent}
    {ph : PipelinePhase} (ho : l.obey cap (some e) = some l') (hk : l.subject e = k)
    (hidle : (l.handle k).work = .idle) (hold : u.phase.handles = [k]) (hnew : ph.handles = [k])
    (hdropped : ∀ k next, ph ≠ .dropping k next) : ReactSpec l l' u (u.goto ph) := by
  refine .of_phase hi h ph ho hk (hnew.trans hold.symm) ?_ (fun k next hph => ?_) (fun k' hk' => ?_) ?_
  · exact List.mem_append_right _ (by rw [hold]; exact List.mem_singleton_self _)
  · exact absurd hph (hdropped k next)
  · have hin : k' ∈ (u.goto ph).phase.handles := by
      rcases ph <;> cases hk' <;> exact List.mem_singleton_self _
    have hin' : k' ∈ [k] := hnew ▸ hin
    exact ⟨List.mem_singleton.mp hin', fun hpark => absurd hpark (not_willPark_of_idle hidle)⟩
  · rintro (rfl | rfl) <;> cases hnew

/-- The write is submitted with its reservation. -/
theorem ReactSpec.of_submit (hi : LedgerInv cap l) (h : u.WorkerInv l)
    (ho : l.obey cap none = some l') (hph : u.phase = .reconciling k) (last : Bool) :
    ReactSpec l l' u
      { u with
        phase := if last then .draining else .top
        submitted := u.submitted ++ [(k, false)] } := by
  have hold : u.handles = u.submitted.map Prod.fst ++ [k] := handles_of_phase hph
  have hnew : PipelinedWorker.handles
      { u with
        phase := if last then .draining else .top
        submitted := u.submitted ++ [(k, false)] } = u.handles := by
    rw [hold, handles, List.map_append]
    rcases last <;> exact List.append_nil _
  refine .of_none hi h ho (hnew ▸ h.nodup) (fun k' hk' => hnew ▸ hk') (fun k' hk' hnot => ?_)
    (.inl (by rcases last <;> rfl)) ?_
  · exact absurd (hnew ▸ hk') hnot
  · rcases last <;> rintro (hph | hph) <;> cases hph

/-- A write completes. -/
theorem ReactSpec.of_complete (hi : LedgerInv cap l) (h : u.WorkerInv l)
    (ho : l.obey cap none = some l') (k : ℕ) :
    ReactSpec l l' u { u with submitted := u.submitted.map fun x => (x.1, x.2 || x.1 == k) } := by
  have hnew : PipelinedWorker.handles
      { u with submitted := u.submitted.map fun x => (x.1, x.2 || x.1 == k) } = u.handles := by
    rw [handles, handles, List.map_map]
    rfl
  refine .of_none hi h ho (hnew ▸ h.nodup) (fun k' hk' => hnew ▸ hk') (fun k' hk' hnot => ?_)
    (.inr ⟨rfl, fun hempty => ?_⟩) (fun hend => ?_)
  · exact absurd (hnew ▸ hk') hnot
  · rw [hempty]
    rfl
  · rw [h.ended hend]
    rfl

/-- An operation takes a step. -/
theorem ReactSpec.of_advance (hi : LedgerInv cap l) (h : u.WorkerInv l)
    (hs : l.step cap (.advance k) = some l') (hk : u.phase.operates = some k)
    (hok : ∀ k, u.phase.waiting = some k → l.WillPark k →
      u.submitted = [] ∧ (l.handle k).live = none) : ReactSpec l l' u u := by
  have hmem := mem_handles_of_operates hk
  refine .of_phase hi h u.phase hs rfl rfl hmem (fun k' next hph => ?_) (fun k' hk' => ?_)
    h.ended
  · have hkk : k = k' := by
      rw [hph] at hk
      exact (Option.some.inj hk).symm
    subst hkk
    obtain ⟨hlive, hacq⟩ := h.dropped k next hph
    obtain ⟨hlive', hacq'⟩ := TransferLedger.advance_releasing hacq hs
    exact ⟨hlive'.trans hlive, hacq'⟩
  · have hkk : k' = k := by
      rcases hph : u.phase <;> rw [hph] at hk hk' <;> cases hk' <;> cases hk <;> rfl
    subst hkk
    exact ⟨rfl, hok k' hk'⟩

/-- A waiting call is dropped. -/
theorem ReactSpec.of_cancel (hi : LedgerInv cap l) (h : u.WorkerInv l)
    (hs : l.step cap (.cancel k) = some l') (hk : u.phase.waiting = some k) :
    ReactSpec l l' u u := by
  refine .of_phase hi h u.phase hs rfl rfl (mem_handles_of_waiting hk)
    (fun k' next hph => ?_) (fun k' hk' => ?_) h.ended
  · rw [hph] at hk
    cases hk
  · obtain rfl : k = k' := Option.some.inj (hk.symm.trans hk')
    exact ⟨rfl, fun hpark => absurd hpark (not_willPark_of_cancel hs)⟩

/-- **One act of a worker.**  A worker that is about to fall asleep must hold
nothing. -/
theorem react_spec (hi : LedgerInv cap l) (h : u.WorkerInv l) {a : PipelineAct}
    {asked : Option LedgerEvent} (hr : u.react cap engine l a = some (asked, u'))
    (ho : l.obey cap asked = some l')
    (hok : a = .advance → ∀ k, u.phase.waiting = some k → l.WillPark k →
      u.submitted = [] ∧ (l.handle k).live = none) : ReactSpec l l' u u' := by
  rcases a with j | - | len | - | last | k | k | - | - | - | k | - | - | - <;>
    simp only [react] at hr
  case spawn =>
    split at hr
    · next hph =>
      cases hr
      have hempty := h.ended (.inl hph)
      refine .of_none hi h ho List.nodup_nil nofun (fun k hk => ?_) (.inl rfl) ?_
      · rw [handles_of_phase hph, hempty] at hk
        cases hk
      · rintro (hph | hph) <;> cases hph
    · cases hr
  case reserve =>
    split at hr
    · next hph =>
      split at hr
      · cases hr
        refine .of_goto hi h ho rfl (List.nil_sublist _) ?_ ?_
        · rw [hph.1]
          nofun
        · rintro (hph | hph) <;> cases hph
      · next hfits =>
        cases hr
        exact .of_reserve hi h hph.1 hfits ho
    · cases hr
  case frame =>
    split at hr
    · next k hph =>
      split at hr
      · cases hr
      · split_ifs at hr
        · cases hr
          obtain ⟨r, -, hidle, -⟩ := TransferLedger.onLive_cases (k := k) ho
          exact .of_begin hi h ho rfl hidle (by rw [hph]; rfl) rfl nofun
        · cases hr
          obtain ⟨r, -, hidle, -⟩ := TransferLedger.onLive_cases (k := k) ho
          exact .of_begin hi h ho rfl hidle (by rw [hph]; rfl) rfl nofun
    · cases hr
  case bodyEnd =>
    split at hr
    · next k hph =>
      exact .of_give_up hi h (Option.some.inj hr) ho (by rw [hph]; rfl) rfl
    · cases hr
  case submit =>
    split at hr
    · next k hph =>
      split at hr
      · cases hr
        exact .of_submit hi h ho hph last
      · cases hr
    · cases hr
  case complete =>
    split at hr
    · cases hr
      exact .of_complete hi h ho k
    · cases hr
  case settle =>
    split at hr
    · next next hset =>
      split at hr
      · next hmem =>
        refine .of_settle hi h (Option.some.inj hr) ho (List.mem_map_of_mem hmem) ?_
        rcases hph : u.phase <;> rw [hph] at hset <;> cases hset <;> rfl
      · cases hr
    · cases hr
  case nextBody =>
    split at hr
    · next hph =>
      cases hr
      refine .of_goto hi h ho rfl (List.nil_sublist _) ?_ (fun _ => hph.2)
      rw [hph.1]
      nofun
    · cases hr
  case finish =>
    split at hr
    · next hph =>
      cases hr
      refine .of_goto hi h ho rfl (List.nil_sublist _) ?_ (fun _ => hph.2)
      rcases hph.1 with hd | ha
      · rw [hd]
        nofun
      · rw [ha]
        nofun
    · cases hr
  case abort =>
    split at hr
    · next hph =>
      cases hr
      refine .of_goto hi h ho rfl (List.nil_sublist _) ?_ ?_
      · rw [hph]
        nofun
      · rintro (hph | hph) <;> cases hph
    · next hph =>
      cases hr
      refine .of_goto hi h ho rfl (List.nil_sublist _) ?_ ?_
      · rw [hph]
        nofun
      · rintro (hph | hph) <;> cases hph
    · next k hph =>
      exact .of_give_up hi h (Option.some.inj hr) ho (by rw [hph]; rfl) rfl
    · next k hph =>
      split at hr
      · exact .of_give_up hi h (Option.some.inj hr) ho (by rw [hph]; rfl) rfl
      · cases hr
    · cases hr
  case discard =>
    split at hr
    · next hph =>
      exact .of_settle hi h (Option.some.inj hr) ho hph.2 (by rw [hph.1]; rfl)
    · cases hr
  case advance =>
    obtain ⟨k, hk, hr⟩ := Option.map_eq_some_iff.mp hr
    cases hr
    exact .of_advance hi h ho hk (hok rfl)
  case resume =>
    split at hr
    · next k hph =>
      split_ifs at hr with hidle hlive
      · cases hr
        refine .of_goto hi h ho rfl (List.nil_sublist _) (fun k' hk' _ => ?_) ?_
        · rw [hph] at hk'
          rw [List.mem_singleton.mp hk']
          exact ⟨hlive, hidle⟩
        · rintro (hph | hph) <;> cases hph
      · cases hr
        refine .of_goto hi h ho rfl (by rw [hph]; exact .refl _) (fun k' hk' hnot => ?_) ?_
        · rw [hph] at hk'
          exact absurd hk' hnot
        · rintro (hph | hph) <;> cases hph
    · next k len hph =>
      split_ifs at hr with hidle hlen
      · cases hr
        exact .of_begin hi h ho rfl hidle (by rw [hph]; rfl) rfl nofun
      · exact .of_give_up hi h (Option.some.inj hr) ho (by rw [hph]; rfl) rfl
    · next k next hph =>
      split_ifs at hr with hidle
      cases hr
      obtain ⟨hlive, -⟩ := h.dropped k next hph
      refine .of_goto hi h ho (by rcases next <;> rfl) ?_ (fun k' hk' hnot => ?_) ?_
      · rw [hph, handles_dropping]
        exact List.sublist_cons_self _ _
      · rw [hph, handles_dropping] at hk'
        rcases List.mem_cons.mp hk' with rfl | hin
        · exact ⟨hlive, hidle⟩
        · exact absurd hin hnot
      · rcases next <;> rintro (hph | hph) <;> cases hph
    · cases hr
  case cancel =>
    obtain ⟨k, hk, hr⟩ := Option.map_eq_some_iff.mp hr
    cases hr
    exact .of_cancel hi h ho hk

end PipelinedWorker

/-! ### No reachable state is stuck -/

namespace PipelineState

open TransferLedger (LedgerInv)

/-- The worker has begun and not ended. -/
def Unfinished (u : PipelinedWorker) : Prop := u.phase ≠ .absent ∧ u.phase ≠ .finished

/-- The worker sleeps inside `reserve` or `grow`. -/
def Blocked (s : PipelineState) (w : ℕ) : Prop :=
  ∃ k, (s.worker w).phase.waiting = some k ∧
    (s.ledger.handle k).work.isAcquiring = true ∧ s.ledger.Asleep k

/-- Every worker that has not finished is blocked, and no write is in
flight. -/
structure Deadlocked (s : PipelineState) : Prop where
  unfinished : ∃ w, Unfinished (s.worker w)
  blocked : ∀ w, Unfinished (s.worker w) → s.Blocked w
  settled : ∀ w, ∀ x ∈ (s.worker w).submitted, x.2 = true

/-- A worker that is about to fall asleep inside `reserve` or `grow` holds no
reservation. -/
def SleepsEmpty (s : PipelineState) (e : ℕ × PipelineAct) : Prop :=
  e.2 = .advance → ∀ k, (s.worker e.1).phase.waiting = some k → s.ledger.WillPark k →
    (s.worker e.1).submitted = [] ∧ (s.ledger.handle k).live = none

instance (s : PipelineState) (e : ℕ × PipelineAct) : Decidable (s.SleepsEmpty e) :=
  inferInstanceAs (Decidable (e.2 = .advance → ∀ k ∈ (s.worker e.1).phase.waiting,
    s.ledger.WillPark k → (s.worker e.1).submitted = [] ∧ (s.ledger.handle k).live = none))

/-- The reservations are each one worker's, and each worker's fit its phase. -/
structure PipelineInv (cap : PoolId → ℕ) (s : PipelineState) : Prop where
  ledger : LedgerInv cap s.ledger
  workers : ∀ w, (s.worker w).WorkerInv s.ledger
  disjoint : ∀ w w', w ≠ w' → ∀ k ∈ (s.worker w).handles, k ∉ (s.worker w').handles
  owned : ∀ k, ¬ s.ledger.Free k → ∃ w, k ∈ (s.worker w).handles

variable {cap : PoolId → ℕ} {engine : BudgetEngineConfig} {s s' : PipelineState}

/-- **A step is an act of one worker**, and the answer of the ledger. -/
theorem step_cases {e : ℕ × PipelineAct} (hs : s.step cap engine e = some s') :
    ∃ asked u l, (s.worker e.1).react cap engine s.ledger e.2 = some (asked, u) ∧
      s.ledger.obey cap asked = some l ∧ s' = ⟨l, Function.update s.worker e.1 u⟩ := by
  obtain ⟨⟨asked, u⟩, hr, hrest⟩ := Option.bind_eq_some_iff.mp hs
  obtain ⟨l, ho, hlast⟩ := Option.bind_eq_some_iff.mp hrest
  exact ⟨asked, u, l, hr, ho, (Option.some.inj hlast).symm⟩

theorem PipelineInv.new : PipelineInv cap (new cap) where
  ledger := .new cap
  workers := fun _ => ⟨List.nodup_nil, nofun, nofun, nofun, fun _ => rfl⟩
  disjoint := nofun
  owned := fun _ hk => absurd ⟨rfl, rfl⟩ hk

theorem ledgerInv_obey {l l' : TransferLedger} (hi : LedgerInv cap l)
    {asked : Option LedgerEvent} (ho : l.obey cap asked = some l') : LedgerInv cap l' := by
  rcases asked with - | e
  · rw [← Option.some.inj ho]
    exact hi
  · exact hi.step ho

/-- **The invariant is kept** when whoever falls asleep holds no reservation. -/
theorem PipelineInv.step (hi : PipelineInv cap s) {e : ℕ × PipelineAct} (hok : s.SleepsEmpty e)
    (hs : s.step cap engine e = some s') : PipelineInv cap s' := by
  obtain ⟨asked, u, l, hr, ho, rfl⟩ := step_cases hs
  obtain ⟨w, a⟩ := e
  have hspec := PipelinedWorker.react_spec hi.ledger (hi.workers w) hr ho hok
  -- what the others own is neither this worker's nor new
  have hother : ∀ w', w' ≠ w → ∀ k ∈ (s.worker w').handles,
      k ∉ (s.worker w).handles ∧ k < s.ledger.size :=
    fun w' hne k hk => ⟨hi.disjoint w' w hne k hk, (hi.workers w').lt_size k hk⟩
  have hfresh : ∀ w', w' ≠ w → ∀ k ∈ u.handles, k ∉ (s.worker w').handles := by
    intro w' hne k hk hk'
    obtain ⟨hnot, hlt⟩ := hother w' hne k hk'
    rcases hspec.new k hk with hin | hsize
    · exact hnot hin
    · exact absurd hlt (not_lt.mpr hsize)
  refine ⟨ledgerInv_obey hi.ledger ho, fun w' => ?_, fun w₁ w₂ hne k hk => ?_, fun k hk => ?_⟩
  · show (Function.update s.worker w u w').WorkerInv l
    by_cases hw : w' = w
    · subst hw
      rw [Function.update_self]
      exact hspec.inv
    · rw [Function.update_of_ne hw]
      refine (hi.workers w').congr hspec.size_le fun k hk => ?_
      obtain ⟨hnot, hlt⟩ := hother w' hw k hk
      exact hspec.same k hnot hlt
  · show k ∉ (Function.update s.worker w u w₂).handles
    have hk₁ : k ∈ (Function.update s.worker w u w₁).handles := hk
    by_cases h₁ : w₁ = w
    · subst h₁
      rw [Function.update_self] at hk₁
      rw [Function.update_of_ne hne.symm]
      exact hfresh w₂ hne.symm k hk₁
    · rw [Function.update_of_ne h₁] at hk₁
      by_cases h₂ : w₂ = w
      · subst h₂
        rw [Function.update_self]
        exact fun hk₂ => hfresh w₁ h₁ k hk₂ hk₁
      · rw [Function.update_of_ne h₂]
        exact hi.disjoint w₁ w₂ hne k hk₁
  · show ∃ w', k ∈ (Function.update s.worker w u w').handles
    by_cases hku : k ∈ u.handles
    · exact ⟨w, by rwa [Function.update_self]⟩
    · have hnot : k ∉ (s.worker w).handles := fun hin => hk (hspec.lost k hku (.inl hin))
      have hlt : k < s.ledger.size :=
        not_le.mp fun hsize => hk (hspec.lost k hku (.inr hsize))
      have hsame := hspec.same k hnot hlt
      obtain ⟨w', hw'⟩ := hi.owned k fun hfree => hk (by rwa [TransferLedger.Free, hsame.1])
      have hne : w' ≠ w := by
        rintro rfl
        exact hnot hw'
      exact ⟨w', by rwa [Function.update_of_ne hne]⟩

/-- In a stuck state every reservation waits and holds nothing. -/
theorem PipelineInv.allWaiting (hi : PipelineInv cap s) (hd : s.Deadlocked) :
    s.ledger.AllWaiting := by
  intro k
  by_cases hfree : s.ledger.Free k
  · exact ⟨hfree.1, .inl hfree.2⟩
  · obtain ⟨w, hw⟩ := hi.owned k hfree
    have hun : Unfinished (s.worker w) := by
      refine ⟨fun hph => ?_, fun hph => ?_⟩
      · rw [PipelinedWorker.handles_of_phase hph, (hi.workers w).ended (.inl hph)] at hw
        cases hw
      · rw [PipelinedWorker.handles_of_phase hph, (hi.workers w).ended (.inr hph)] at hw
        cases hw
    obtain ⟨k', hwait, hacq, p, m, hcur, hparked, hpermit⟩ := hd.blocked w hun
    obtain ⟨hempty, hlive⟩ := (hi.workers w).asleep k' hwait p m hcur hparked
    have hkk : k = k' := by
      rw [PipelinedWorker.handles, hempty] at hw
      rcases hph : (s.worker w).phase <;> rw [hph] at hw hwait <;> cases hwait <;>
        exact List.mem_singleton.mp hw
    subst hkk
    exact ⟨hlive, .inr ⟨hacq, p, m, hcur, hparked, hpermit⟩⟩

/-- A configuration that has passed both validations. -/
def Validated (c : TransferMemoryConfig) (engine : BudgetEngineConfig) : Prop :=
  engine.validate = .ok () ∧ c.validate engine = .ok ()

/-- **No hold and wait, no deadlock.**  While no worker falls asleep inside
`reserve` or `grow` with a reservation in its hands, no reachable state has
every unfinished worker asleep there. -/
theorem admission_progress {c : TransferMemoryConfig} (hv : Validated c engine)
    (h : Reach (step (c.poolCap engine) engine) SleepsEmpty (· = new (c.poolCap engine)) s) :
    ¬ s.Deadlocked := by
  have hi : PipelineInv (c.poolCap engine) s :=
    h.invariant (fun _ hnew => hnew ▸ .new) fun _ _ _ hi hok hs => hi.step hok hs
  intro hd
  obtain ⟨w, hw⟩ := hd.unfinished
  obtain ⟨k, -, hacq, -⟩ := hd.blocked w hw
  rw [(hi.allWaiting hd).idle hi.ledger (TransferMemoryConfig.poolCap_le hv.2) k] at hacq
  cases hacq

/-- One connection, frames of 4096 bytes and room for two of them. -/
def tightEngine : BudgetEngineConfig where
  readBufferSize := 4096
  maxConnectionsTotal := 1
  bufferPoolMaxBytes := 4096
  globalMaxBytes := 8192
  jobMaxBytes := 8192
  workerReadAheadBytes := 8192
  maxQueuedBytes := 8192

/-- A small budget, whose writer pool is soon full. -/
def tightMemory : TransferMemoryConfig where
  aggregateMaxBytes := 24576
  jobMaxBytes := 16384
  networkIngressMaxBytes := 4096
  framesMaxBytes := 4096
  writerMaxBytes := 8192
  checkpointMaxBytes := 256
  aggregate_le := by decide

theorem tight_validated : Validated tightMemory tightEngine := ⟨rfl, rfl⟩

/-- Worker `w` of job 0 starts and makes its pre-read reservation. -/
def preRead (w : ℕ) : List (ℕ × PipelineAct) :=
  (w, PipelineAct.spawn 0) :: (w, .reserve) :: List.replicate 10 (w, .advance) ++ [(w, PipelineAct.resume)]

/-- Two workers hold the whole component, and a third sleeps behind them. -/
def sleeperRun : List (ℕ × PipelineAct) :=
  preRead 0 ++ preRead 1 ++ (2, PipelineAct.spawn 0) :: (2, .reserve) :: List.replicate 4 (2, .advance)

/-- Two workers wait, and the third one goes on. -/
theorem admission_progress_sleeperRun :
    ∃ s, runEvents (step (tightMemory.poolCap tightEngine) tightEngine)
        (new (tightMemory.poolCap tightEngine)) sleeperRun = some s ∧
      s.Blocked 2 ∧ ¬ s.Deadlocked := by
  have hok : runOk (step (tightMemory.poolCap tightEngine) tightEngine) SleepsEmpty
      (new (tightMemory.poolCap tightEngine)) sleeperRun := by
    decide +kernel
  have hrun : ∃ s ∈ runEvents (step (tightMemory.poolCap tightEngine) tightEngine)
      (new (tightMemory.poolCap tightEngine)) sleeperRun,
        (s.worker 2).phase = .reserving 2 ∧
        (s.ledger.handle 2).work =
          .acquiring (.reserve .writer) 4096 [] (PoolId.links 0 .writer) (some 0) ∧
        (s.ledger.pool (.component 0 .writer)).phases (2, 0) = .parked ∧
        ((s.ledger.pool (.component 0 .writer)).call (2, 0)).permit = false := by
    decide +kernel
  obtain ⟨s, hs, hph, hwork, hparked, hpermit⟩ := hrun
  refine ⟨s, hs, ⟨2, by rw [hph]; rfl, by rw [hwork]; rfl, .component 0 .writer, 0, ?_, hparked,
    hpermit⟩, admission_progress tight_validated (.of_run (.start rfl) hok hs)⟩
  rw [hwork]
  rfl

/-- Both workers receive a frame that is larger than their reservation. -/
def growersRun : List (ℕ × PipelineAct) :=
  preRead 0 ++ preRead 1 ++ (0, PipelineAct.frame 4097) :: List.replicate 4 (0, .advance) ++
    (1, PipelineAct.frame 4097) :: List.replicate 4 (1, .advance)

/-- Workers that do not act stay as they are. -/
theorem worker_of_run {w : ℕ} {es : List (ℕ × PipelineAct)} (hw : ∀ e ∈ es, e.1 ≠ w)
    (h : runEvents (step cap engine) s es = some s') : s'.worker w = s.worker w := by
  induction es generalizing s with
  | nil =>
    rw [← Option.some.inj h]
  | cons e es ih =>
    obtain ⟨t, ht, hrest⟩ := Option.bind_eq_some_iff.mp h
    obtain ⟨asked, u, l, -, -, rfl⟩ := step_cases ht
    rw [ih (fun e' he' => hw e' (List.mem_cons_of_mem _ he')) hrest]
    exact Function.update_of_ne (hw e List.mem_cons_self).symm ..

/-- The state of worker `w` in which it waits for the writer component of job 0
inside `grow` and holds its frame's reservation. -/
def GrowsBlocked (s : PipelineState) (w k m : ℕ) : Prop :=
  (s.worker w).phase = .growing k 4097 ∧ (s.worker w).submitted = [] ∧
    (s.ledger.handle k).work =
      .acquiring .grow 1 [] (PoolId.links 0 .writer) (some m) ∧
    (s.ledger.pool (.component 0 .writer)).phases (k, m) = .parked ∧
    ((s.ledger.pool (.component 0 .writer)).call (k, m)).permit = false

instance (w k m : ℕ) : Decidable (s.GrowsBlocked w k m) :=
  inferInstanceAs (Decidable (_ ∧ _ ∧ _ ∧ _ ∧ _))

theorem GrowsBlocked.blocked {w k m : ℕ} (h : s.GrowsBlocked w k m) : s.Blocked w := by
  obtain ⟨hph, -, hwork, hparked, hpermit⟩ := h
  refine ⟨k, by rw [hph]; rfl, by rw [hwork]; rfl, .component 0 .writer, m, ?_, hparked, hpermit⟩
  rw [hwork]
  rfl

/-- **Two workers that grow wait for one another.** -/
theorem growers_deadlock :
    ∃ s, Validated tightMemory tightEngine ∧
      runEvents (step (tightMemory.poolCap tightEngine) tightEngine)
        (new (tightMemory.poolCap tightEngine)) growersRun = some s ∧ s.Deadlocked := by
  have hrun : ∃ s ∈ runEvents (step (tightMemory.poolCap tightEngine) tightEngine)
      (new (tightMemory.poolCap tightEngine)) growersRun,
        s.GrowsBlocked 0 0 3 ∧ s.GrowsBlocked 1 1 3 := by
    decide +kernel
  obtain ⟨s, hs, h₀, h₁⟩ := hrun
  -- everybody else never started
  have hrest : ∀ w, w ≠ 0 → w ≠ 1 → s.worker w = ⟨0, .absent, []⟩ := by
    intro w hw₀ hw₁
    have hactors : ∀ e ∈ growersRun, e.1 = 0 ∨ e.1 = 1 := by decide
    refine worker_of_run (fun e he hew => ?_) hs
    rcases hactors e he with h | h
    · exact hw₀ (hew.symm.trans h)
    · exact hw₁ (hew.symm.trans h)
  refine ⟨s, tight_validated, hs, ⟨0, ?_⟩, fun w hw => ?_, fun w => ?_⟩
  · rw [Unfinished, h₀.1]
    exact ⟨nofun, nofun⟩
  · by_cases hw₀ : w = 0
    · exact hw₀ ▸ h₀.blocked
    · by_cases hw₁ : w = 1
      · exact hw₁ ▸ h₁.blocked
      · exact absurd (by rw [hrest w hw₀ hw₁]) hw.1
  · by_cases hw₀ : w = 0
    · rw [hw₀, h₀.2.1]
      nofun
    · by_cases hw₁ : w = 1
      · rw [hw₁, h₁.2.1]
        nofun
      · rw [hrest w hw₀ hw₁]
        nofun

end PipelineState

end KDown
