/-
KDown/SegmentedCoverage.lean

When a completed byte of a segmented job was really written.

A byte is good when it was admitted for resume or its write succeeded.  The
invariant `Sound` says that only good bytes are completed, that the
acknowledged prefix of every lease is good, and, for each worker and each
published record, that the prefix it vouches for is good.

All steps keep it except one: after a body was consumed the worker reports the
accepted range and completes its whole lease, and nothing compares the written
frontier with the lease's end.  A partial response that ends before the
requested end, or on the lane path a body that ends early, closes below it.
`segmented_coverage` is the result for the runs in which every body closes at
or past the end its lease has in the scheduler;
`short_response_completes_unwritten` is a run outside it.
-/
import KDown.Segmented

namespace KDown

/-! ### Ledgers that only vouch for good bytes -/

namespace Ledger

variable {g g' g'' : Ledger} {good good' : ℕ → Prop}

/-- Leases in use keep their start, and their end only moves down. -/
structure Narrows (g g' : Ledger) : Prop where
  nextLease_le : g.nextLease ≤ g'.nextLease
  lease : ∀ {id l'}, id < g.nextLease → g'.active.get? id = some l' →
    ∃ l, g.active.get? id = some l ∧ l.start = l'.start ∧ l'.stop ≤ l.stop

theorem Narrows.refl (g : Ledger) : Narrows g g :=
  ⟨le_rfl, fun {_ l'} _ h => ⟨l', h, rfl, le_rfl⟩⟩

theorem Narrows.trans (h : Narrows g g') (h' : Narrows g' g'') : Narrows g g'' := by
  refine ⟨h.nextLease_le.trans h'.nextLease_le, fun {id l''} hid hl'' => ?_⟩
  obtain ⟨l', hl', hstart', hstop'⟩ := h'.lease (hid.trans_le h.nextLease_le) hl''
  obtain ⟨l, hl, hstart, hstop⟩ := h.lease hid hl'
  exact ⟨l, hl, hstart.trans hstart', hstop'.trans hstop⟩

/-- Every call of the scheduler narrows its leases. -/
theorem Step.narrows (h : Step g g') : Narrows g g' := by
  refine ⟨h.nextLease_le, fun {id l'} hid hl' => ?_⟩
  -- a new lease has an unused id; the others only lose their tail or go
  cases h with
  | carve hgap hord hend =>
    rw [Ledger.carve, SortedMap.get?_insert_of_ne _ _ hid.ne] at hl'
    exact ⟨l', hl', rfl, le_rfl⟩
  | @advance a lease next hget hnext hend =>
    simp only [Ledger.advance, SortedMap.get?_insert] at hl'
    split_ifs at hl' with ha
    · cases hl'
      exact ⟨lease, ha ▸ hget, rfl, le_rfl⟩
    · exact ⟨l', hl', rfl, le_rfl⟩
  | credit hget =>
    simp only [Ledger.credit, SortedMap.get?_erase] at hl'
    split_ifs at hl'
    exact ⟨l', hl', rfl, le_rfl⟩
  | giveBack hget =>
    simp only [Ledger.giveBack, SortedMap.get?_erase] at hl'
    split_ifs at hl'
    exact ⟨l', hl', rfl, le_rfl⟩
  | @split a lease newStart hget hlow hend =>
    rw [Ledger.split, SortedMap.get?_insert_of_ne _ _ hid.ne, SortedMap.get?_insert] at hl'
    split_ifs at hl' with ha
    · cases hl'
      exact ⟨lease, ha ▸ hget, rfl, by simp only; omega⟩
    · exact ⟨l', hl', rfl, le_rfl⟩
  | bump => exact ⟨l', hl', rfl, le_rfl⟩

theorem narrows_of_steps (h : Relation.ReflTransGen Step g g') : Narrows g g' := by
  induction h with
  | refl => exact .refl g
  | tail _ hstep ih => exact ih.trans hstep.narrows

/-- The bytes of the lease before `n` are good. -/
def PrefixGood (g : Ledger) (good : ℕ → Prop) (id n : ℕ) : Prop :=
  ∀ l, g.active.get? id = some l → ∀ b, l.Spans b → b < n → good b

/-- All bytes of the lease are good. -/
def WholeGood (g : Ledger) (good : ℕ → Prop) (id : ℕ) : Prop :=
  ∀ l, g.active.get? id = some l → ∀ b, l.Spans b → good b

theorem PrefixGood.narrow {id n : ℕ} (h : PrefixGood g good id n) (hid : id < g.nextLease)
    (hn : Narrows g g') (hgood : ∀ b, good b → good' b) : PrefixGood g' good' id n := by
  intro l' hl' b hb hbn
  obtain ⟨l, hl, hstart, hstop⟩ := hn.lease hid hl'
  exact hgood b (h l hl b ⟨hstart ▸ hb.1, hb.2.trans hstop⟩ hbn)

theorem WholeGood.narrow {id : ℕ} (h : WholeGood g good id) (hid : id < g.nextLease)
    (hn : Narrows g g') (hgood : ∀ b, good b → good' b) : WholeGood g' good' id := by
  intro l' hl' b hb
  obtain ⟨l, hl, hstart, hstop⟩ := hn.lease hid hl'
  exact hgood b (h l hl b ⟨hstart ▸ hb.1, hb.2.trans hstop⟩)

/-- Only good bytes are completed or acknowledged. -/
structure Backed (g : Ledger) (good : ℕ → Prop) : Prop where
  completed : ∀ b ∈ g.completed, good b
  acknowledged : ∀ {id l}, g.active.get? id = some l →
    ∀ b, l.start ≤ b → b < l.nextOffset → good b

theorem Backed.mono (h : Backed g good) (hgood : ∀ b, good b → good' b) : Backed g good' :=
  ⟨fun b hb => hgood b (h.completed b hb), fun hl b h₁ h₂ => hgood b (h.acknowledged hl b h₁ h₂)⟩

theorem Backed.carve (h : Backed g good) (start stop : ℕ) : Backed (g.carve start stop) good := by
  refine ⟨h.completed, fun {id l} hl b h₁ h₂ => ?_⟩
  simp only [Ledger.carve, SortedMap.get?_insert] at hl
  split_ifs at hl
  · -- nothing of a new lease is acknowledged
    cases hl
    simp only [freshLease] at h₁ h₂
    omega
  · exact h.acknowledged hl b h₁ h₂

theorem Backed.advance (h : Backed g good) {id next : ℕ} {lease : SegmentLease}
    (hget : g.active.get? id = some lease) (hend : next ≤ lease.stop + 1)
    (hbefore : PrefixGood g good id next) : Backed (g.advance id lease next) good := by
  refine ⟨h.completed, fun {a l} hl b h₁ h₂ => ?_⟩
  simp only [Ledger.advance, SortedMap.get?_insert] at hl
  split_ifs at hl
  · cases hl
    simp only at h₁ h₂
    exact hbefore lease hget b ⟨h₁, by omega⟩ h₂
  · exact h.acknowledged hl b h₁ h₂

theorem Backed.credit (h : Backed g good) {id : ℕ} {lease : SegmentLease}
    (hget : g.active.get? id = some lease) (hwhole : WholeGood g good id) :
    Backed (g.credit id lease) good := by
  refine ⟨fun b hb => ?_, fun {a l} hl b h₁ h₂ => ?_⟩
  · rcases IntervalSet.mem_insert.mp hb with hb | hb
    · exact h.completed b hb
    · exact hwhole lease hget b hb
  · simp only [Ledger.credit, SortedMap.get?_erase] at hl
    split_ifs at hl
    exact h.acknowledged hl b h₁ h₂

theorem Backed.giveBack (h : Backed g good) {id : ℕ} {lease : SegmentLease}
    (hget : g.active.get? id = some lease) : Backed (g.giveBack id lease) good := by
  refine ⟨fun b hb => ?_, fun {a l} hl b h₁ h₂ => ?_⟩
  · simp only [Ledger.giveBack] at hb
    split_ifs at hb
    · rcases IntervalSet.mem_insert.mp hb with hb | hb
      · exact h.completed b hb
      · -- what is credited is the acknowledged part
        exact h.acknowledged hget b hb.1 (by omega)
    · exact h.completed b hb
  · simp only [Ledger.giveBack, SortedMap.get?_erase] at hl
    split_ifs at hl
    exact h.acknowledged hl b h₁ h₂

theorem Backed.split (h : Backed g good) {id newStart : ℕ} {lease : SegmentLease}
    (hget : g.active.get? id = some lease) : Backed (g.split id lease newStart) good := by
  refine ⟨h.completed, fun {a l} hl b h₁ h₂ => ?_⟩
  simp only [Ledger.split, SortedMap.get?_insert] at hl
  split_ifs at hl
  · cases hl
    simp only [freshLease] at h₁ h₂
    omega
  · cases hl
    exact h.acknowledged hget b h₁ h₂
  · exact h.acknowledged hl b h₁ h₂

end Ledger

namespace SegmentScheduler

variable {s : SegmentScheduler} {good : ℕ → Prop}

theorem reportProgress_backed (h : s.ledger.Backed good) {id generation offset : ℕ}
    (hbefore : s.ledger.PrefixGood good id offset) :
    (s.reportProgress id generation offset).2.ledger.Backed good := by
  rcases s.reportProgress_ledger id generation offset with e | ⟨lease, hget, -, -, e⟩
  · rw [e]; exact h
  · rw [e]
    refine h.advance hget (min_le_right _ _) fun l hl b hb hlt => hbefore l hl b hb ?_
    exact hlt.trans_le (min_le_left _ _)

theorem absorbCell_backed (h : s.ledger.Backed good) {cell : Option LeaseRecord}
    (hcell : ∀ r, cell = some r → s.ledger.PrefixGood good r.leaseId r.writtenThrough) :
    (s.absorbCell cell).2.ledger.Backed good := by
  unfold absorbCell
  rcases cell with - | r
  · exact h
  simp only
  rcases s.leaseNextOffset r.leaseId with - | before
  · exact h
  simp only
  split_ifs
  · exact reportProgress_backed h (hcell r rfl)
  · exact reportProgress_backed h (hcell r rfl)

theorem absorbWorkerProgress_backed {cells : List (Option LeaseRecord)}
    (h : s.ledger.Backed good)
    (hcells : ∀ r, some r ∈ cells →
      r.leaseId < s.nextLease ∧ s.ledger.PrefixGood good r.leaseId r.writtenThrough) :
    (s.absorbWorkerProgress cells).2.ledger.Backed good := by
  induction cells generalizing s with
  | nil => exact h
  | cons cell cells ih =>
    -- the later cells still vouch for their leases after this one
    have hn := Ledger.narrows_of_steps (s.absorbCell_steps cell)
    refine ih (absorbCell_backed h fun r hr => (hcells r (by simp [hr])).2) fun r hr => ?_
    obtain ⟨hid, hp⟩ := hcells r (List.mem_cons_of_mem _ hr)
    exact ⟨hid.trans_le hn.nextLease_le, hp.narrow hid hn fun _ hb => hb⟩

theorem foldl_reclaim_backed (ids : List ℕ) (h : s.ledger.Backed good) :
    (ids.foldl reclaim s).ledger.Backed good := by
  induction ids generalizing s with
  | nil => exact h
  | cons id ids ih =>
    refine ih ?_
    rcases s.reclaim_ledger id with e | ⟨lease, hget, e⟩
    · rw [e]; exact h
    · rw [e]; exact h.giveBack hget

end SegmentScheduler

/-! ### The invariant -/

namespace SegmentedState

variable {cfg : SegmentedConfig} {s s' : SegmentedState} {w : ℕ}

/-- Admitted for resume, or successfully written. -/
def Good (cfg : SegmentedConfig) (s : SegmentedState) (b : ℕ) : Prop :=
  (∃ r ∈ cfg.admitted, r.1 ≤ b ∧ b ≤ r.2) ∨ b ∈ s.written

/-- A lease id in use, with the bytes of that lease before `n` good. -/
structure Vouches (g : Ledger) (good : ℕ → Prop) (id n : ℕ) : Prop where
  inUse : id < g.nextLease
  bytes : g.PrefixGood good id n

/-- The frontier of a pipelined body vouches for its lease up to its start and
acknowledges only good bytes. -/
structure FrontierOk (g : Ledger) (good : ℕ → Prop) (t : Transfer) (f : LeaseFrontier) :
    Prop where
  leaseId : f.leaseId = t.lease.id
  before : Vouches g good t.lease.id f.start
  acknowledged : ∀ b ∈ f.acknowledged, good b

/-- What holds of a worker in each phase. -/
def PhaseOk (g : Ledger) (good : ℕ → Prop) : Phase → Prop
  | .idle => True
  | .holding lease => Vouches g good lease.id lease.nextOffset
  | .opening t => Vouches g good t.lease.id t.validatedStart ∧ t.inRangeOffset = 0
  | .reading t => Vouches g good t.lease.id t.absOffset
  | .writing t _ _ => Vouches g good t.lease.id t.absOffset
  | .pipelining t f => FrontierOk g good t f
  | .draining t f _ => FrontierOk g good t f
  | .closing t through => Vouches g good t.lease.id through
  | .settling lease todo =>
      lease.id < g.nextLease ∧
        ∀ call ∈ todo, (∃ n, call = .reportProgress n) ∨ call = .complete →
          g.WholeGood good lease.id
  | .exited => True

/-- Only good bytes are completed, acknowledged, published or about to be. -/
structure Sound (cfg : SegmentedConfig) (s : SegmentedState) : Prop where
  wellFormed : s.sched.ledger.WellFormed
  total : s.sched.totalSize = cfg.totalSize
  backed : s.sched.ledger.Backed (s.Good cfg)
  cells : ∀ {w r}, s.cells w = some r →
    Vouches s.sched.ledger (s.Good cfg) r.leaseId r.writtenThrough
  completions : ∀ {w c}, c ∈ s.completions w → c.outcome.isCompleted = true →
    ∀ b, c.submission.offset ≤ b → b ≤ c.submission.offset + c.submission.len - 1 → b ∈ s.written
  phases : ∀ w, PhaseOk s.sched.ledger (s.Good cfg) (s.phases w)

variable {g g' : Ledger} {good good' : ℕ → Prop}

theorem Vouches.narrow {id n : ℕ} (h : Vouches g good id n) (hn : g.Narrows g')
    (hgood : ∀ b, good b → good' b) : Vouches g' good' id n :=
  ⟨h.inUse.trans_le hn.nextLease_le, h.bytes.narrow h.inUse hn hgood⟩

theorem FrontierOk.narrow {t : Transfer} {f : LeaseFrontier} (h : FrontierOk g good t f)
    (hn : g.Narrows g') (hgood : ∀ b, good b → good' b) : FrontierOk g' good' t f :=
  ⟨h.leaseId, h.before.narrow hn hgood, fun b hb => hgood b (h.acknowledged b hb)⟩

theorem PhaseOk.narrow {p : Phase} (h : PhaseOk g good p) (hn : g.Narrows g')
    (hgood : ∀ b, good b → good' b) : PhaseOk g' good' p := by
  cases p with
  | idle => trivial
  | holding lease => exact Vouches.narrow h hn hgood
  | opening t => exact ⟨h.1.narrow hn hgood, h.2⟩
  | reading t => exact Vouches.narrow h hn hgood
  | writing t owned truncated => exact Vouches.narrow h hn hgood
  | pipelining t f => exact FrontierOk.narrow h hn hgood
  | draining t f retry => exact FrontierOk.narrow h hn hgood
  | closing t through => exact Vouches.narrow h hn hgood
  | settling lease todo =>
    exact ⟨h.1.trans_le hn.nextLease_le,
      fun call hc hk => (h.2 call hc hk).narrow h.1 hn hgood⟩
  | exited => trivial

/-- Moving the vouched offset below what is good. -/
theorem Vouches.extend {id n m : ℕ} (h : Vouches g good id n)
    (hgood : ∀ b, n ≤ b → b < m → good b) : Vouches g good id m :=
  ⟨h.inUse, fun l hl b hb hbm => by
    rcases lt_or_ge b n with hlt | hge
    · exact h.bytes l hl b hb hlt
    · exact hgood b hge hbm⟩

/-- The published frontier of a pipelined body. -/
theorem FrontierOk.through {t : Transfer} {f : LeaseFrontier} (h : FrontierOk g good t f) :
    Vouches g good t.lease.id f.acknowledgedThrough :=
  h.before.extend fun _ hle hlt =>
    h.acknowledged _ (LeaseFrontier.mem_acknowledged_of_lt_through hle hlt)

/-! ### Changes that keep the invariant -/

theorem Sound.setPhase (h : Sound cfg s) {p : Phase}
    (hp : PhaseOk s.sched.ledger (s.Good cfg) p) : Sound cfg (s.setPhase w p) := by
  refine ⟨h.wellFormed, h.total, h.backed, h.cells, h.completions, fun v => ?_⟩
  simp only [SegmentedState.setPhase, Function.update_apply]
  split_ifs
  · exact hp
  · exact h.phases v

theorem Sound.setCell (h : Sound cfg s) {c : Option LeaseRecord}
    (hc : ∀ r, c = some r →
      Vouches s.sched.ledger (s.Good cfg) r.leaseId r.writtenThrough) :
    Sound cfg (s.setCell w c) := by
  refine ⟨h.wellFormed, h.total, h.backed, fun {v r} hr => ?_, h.completions, h.phases⟩
  simp only [SegmentedState.setCell, Function.update_apply] at hr
  split_ifs at hr
  · exact hc r hr
  · exact h.cells hr

/-- Replacing the scheduler by one reached through ledger steps that keeps
vouching for good bytes only. -/
theorem Sound.setSched (h : Sound cfg s) (sched : SegmentScheduler)
    (hsteps : Relation.ReflTransGen Ledger.Step s.sched.ledger sched.ledger)
    (hbacked : sched.ledger.Backed (s.Good cfg)) : Sound cfg { s with sched := sched } := by
  have hn := Ledger.narrows_of_steps hsteps
  exact ⟨h.wellFormed.steps hsteps, (SegmentScheduler.steps_totalSize hsteps).trans h.total,
    hbacked, fun hr => (h.cells hr).narrow hn fun _ hb => hb, h.completions,
    fun v => (h.phases v).narrow hn fun _ hb => hb⟩

/-- A successful write makes more bytes good. -/
theorem Sound.write (h : Sound cfg s) (start stop : ℕ) :
    Sound cfg { s with written := s.written.insert start stop } := by
  have hgood : ∀ b, s.Good cfg b →
      Good cfg { s with written := s.written.insert start stop } b := fun b hb =>
    hb.imp_right fun hw => IntervalSet.mem_insert.mpr (.inl hw)
  have hn := Ledger.Narrows.refl s.sched.ledger
  exact ⟨h.wellFormed, h.total, h.backed.mono hgood, fun hr => (h.cells hr).narrow hn hgood,
    fun hc hk b h₁ h₂ => IntervalSet.mem_insert.mpr (.inl (h.completions hc hk b h₁ h₂)),
    fun v => (h.phases v).narrow hn hgood⟩

theorem Sound.setCompletions (h : Sound cfg s) (w : ℕ) (cs : List WriteCompletion)
    (hcs : ∀ c ∈ cs, c.outcome.isCompleted = true →
      ∀ b, c.submission.offset ≤ b → b ≤ c.submission.offset + c.submission.len - 1 →
        b ∈ s.written) :
    Sound cfg { s with completions := Function.update s.completions w cs } := by
  refine ⟨h.wellFormed, h.total, h.backed, h.cells, fun {v c} hc hk => ?_, h.phases⟩
  simp only [Function.update_apply] at hc
  split_ifs at hc
  · exact hcs c hc hk
  · exact h.completions hc hk

theorem Sound.reconcile (h : Sound cfg s) (workers : ℕ) : Sound cfg (s.reconcile workers) := by
  refine h.setSched _ (s.sched.absorbWorkerProgress_steps _)
    (SegmentScheduler.absorbWorkerProgress_backed h.backed fun r hr => ?_)
  obtain ⟨v, -, hv⟩ := List.mem_map.mp hr
  exact ⟨(h.cells hv).inUse, (h.cells hv).bytes⟩

/-! ### One step -/

theorem phaseOk_errorEnding {lease : SegmentLease} (h : lease.id < g.nextLease)
    (e : WorkerError) : PhaseOk g good (.settling lease (errorEnding e)) := by
  refine ⟨h, fun call hc hk => ?_⟩
  cases e <;> simp only [errorEnding, List.mem_cons, List.not_mem_nil, or_false] at hc <;>
    rcases hk with ⟨n, rfl⟩ | rfl <;> simp at hc

/-- Nothing is vouched for in a lease that was just issued. -/
theorem vouches_fresh {start stop : ℕ} (hnext : g'.nextLease = g.nextLease + 1)
    (hget : g'.active.get? g.nextLease = some (g.freshLease start stop)) :
    Vouches g' good (g.freshLease start stop).id (g.freshLease start stop).nextOffset := by
  refine ⟨by rw [hnext]; exact Nat.lt_succ_self _, fun l hl b hb hlt => ?_⟩
  obtain rfl : g.freshLease start stop = l := Option.some.inj (hget.symm.trans hl)
  exact absurd hb.1 (not_le.mpr hlt)

theorem Sound.acquire (h : Sound cfg s) {divisor now : ℕ} {lease : SegmentLease}
    {sched : SegmentScheduler}
    (hacq : (s.sched.setReadyWorkDivisor divisor).acquire now = some (lease, sched)) :
    Sound cfg ({ s with sched := sched }.setPhase w (.holding lease)) := by
  obtain ⟨start, stop, gapEnd, hgap, hord, hend, rfl, e⟩ :=
    SegmentScheduler.acquire_ledger hacq
  have e : sched.ledger = s.sched.ledger.carve start stop := e
  have h' := h.setSched sched (by rw [e]; exact .single (.carve hgap hord hend))
    (by rw [e]; exact h.backed.carve start stop)
  refine h'.setPhase ?_
  simp only [e]
  exact vouches_fresh rfl (SortedMap.get?_insert_self _ _ _)

theorem Sound.split (h : Sound cfg s) {id generation minTail received now : ℕ}
    {lease : SegmentLease} {sched : SegmentScheduler}
    (hsplit : s.sched.splitTail id generation minTail received now = some (lease, sched)) :
    Sound cfg ({ s with sched := sched }.setPhase w (.holding lease)) := by
  obtain ⟨l, newStart, hget, -, hlow, -, hend, rfl, e⟩ :=
    SegmentScheduler.splitTail_ledger hsplit
  have h' := h.setSched sched (by rw [e]; exact .single (.split hget hlow hend))
    (by rw [e]; exact h.backed.split hget)
  refine h'.setPhase ?_
  simp only [e]
  exact vouches_fresh rfl (SortedMap.get?_insert_self _ _ _)

/-- A request starts inside the good prefix of its lease. -/
theorem Sound.startFrom (h : Sound cfg s) {lease : SegmentLease}
    (hv : Vouches s.sched.ledger (s.Good cfg) lease.id lease.nextOffset) :
    Vouches s.sched.ledger (s.Good cfg) lease.id (s.startFrom w lease) := by
  unfold SegmentedState.startFrom
  rcases e : s.cells w with - | r
  · exact hv
  simp only
  split_ifs with hid
  · -- the start is the larger of two offsets that are both vouched for
    refine ⟨hv.inUse, fun l hl b hb hlt => ?_⟩
    rcases (by omega : b < r.writtenThrough ∨ b < lease.nextOffset) with hlt | hlt
    · exact (h.cells e).bytes l (hid ▸ hl) b hb hlt
    · exact hv.bytes l hl b hb hlt
  · exact hv

theorem Sound.respond (h : Sound cfg s) {lease : SegmentLease}
    (hw : s.phases w = .holding lease) (status : ℕ) (headers : Headers) :
    Sound cfg (s.respond cfg w lease status headers) := by
  have hv : Vouches s.sched.ledger (s.Good cfg) lease.id lease.nextOffset := by
    have hp := h.phases w
    rw [hw] at hp
    exact hp
  unfold SegmentedState.respond
  simp only
  rcases e : transfer _ status headers with err | response
  · exact h.setPhase (phaseOk_errorEnding hv.inUse _)
  · refine h.setPhase ⟨?_, rfl⟩
    simp only [transfer_range_start e]
    exact h.startFrom hv

theorem refreshed_lease (t : Transfer) : (s.refreshed t).lease = t.lease := by
  unfold refreshed; split <;> rfl

theorem refreshed_absOffset (t : Transfer) : (s.refreshed t).absOffset = t.absOffset := by
  unfold refreshed; split <;> rfl

/-- A new end narrows the lease of a transfer. -/
theorem Sound.refresh (h : Sound cfg s)
    (hs : s.workerStep cfg w .refresh = some s') : Sound cfg s' := by
  have hp := h.phases w
  simp only [workerStep] at hs
  rcases e : s.phases w with _ | lease | t | t | ⟨t, owned, truncated⟩ | ⟨t, f⟩ |
    ⟨t, f, retry⟩ | ⟨t, through⟩ | ⟨lease, todo⟩ | _ <;> rw [e] at hs hp <;>
    simp only [reduceCtorEq, Option.some.injEq] at hs
  · -- the boundary is read for the first time
    subst hs
    refine h.setPhase ?_
    split_ifs
    · exact ⟨by rw [refreshed_lease]; rfl, by rw [refreshed_lease]; exact hp.1,
        fun b hb => absurd hb (IntervalSet.not_mem_new b)⟩
    · show Vouches _ _ _ _
      rw [refreshed_lease, refreshed_absOffset, Transfer.absOffset, hp.2, Nat.add_zero]
      exact hp.1
  · subst hs
    refine h.setPhase ?_
    show Vouches _ _ _ _
    rw [refreshed_lease, refreshed_absOffset]
    exact hp
  · subst hs
    exact h.setPhase ⟨by rw [refreshed_lease]; exact hp.leaseId,
      by rw [refreshed_lease]; exact hp.before, hp.acknowledged⟩

theorem Sound.bodyFault (h : Sound cfg s) {e : DownloadError}
    (hs : s.bodyFault cfg w e = some s') : Sound cfg s' := by
  have hp := h.phases w
  simp only [SegmentedState.bodyFault] at hs
  rcases ep : s.phases w with _ | lease | t | t | ⟨t, owned, truncated⟩ | ⟨t, f⟩ |
    ⟨t, f, retry⟩ | ⟨t, through⟩ | ⟨lease, todo⟩ | _ <;> rw [ep] at hs hp <;>
    simp only [reduceCtorEq, Option.some.injEq] at hs
  · subst hs
    exact h.setPhase (phaseOk_errorEnding hp.inUse _)
  · split at hs
    · cases hs
      exact h.setPhase hp
    · cases hs
      exact h.setPhase (phaseOk_errorEnding hp.before.inUse _)

/-- **A chunk that is written is the right one** for its place. -/
theorem Sound.receive (h : Sound cfg s) {len : ℕ}
    (hs : s.receive cfg w len = some s') : Sound cfg s' := by
  have hp := h.phases w
  simp only [SegmentedState.receive] at hs
  rcases ep : s.phases w with _ | lease | t | t | ⟨t, owned, truncated⟩ | ⟨t, f⟩ |
    ⟨t, f, retry⟩ | ⟨t, through⟩ | ⟨lease, todo⟩ | _ <;> rw [ep] at hs hp <;>
    simp only [reduceCtorEq] at hs
  · split_ifs at hs
    · exact h.bodyFault hs
    · cases hs; exact h.setPhase hp
    · cases hs; exact h.setPhase hp
  · -- a chunk handed to the pipeline vouches for nothing until it completes
    have h' : Sound cfg { s with queued := Function.update s.queued w (s.queued w ++
        [⟨t.lease.id, t.lease.generation, t.absOffset, t.ownedLen len⟩]) } :=
      ⟨h.wellFormed, h.total, h.backed, h.cells, h.completions, h.phases⟩
    split_ifs at hs
    · exact h.bodyFault hs
    · cases hs; exact h.setPhase ⟨hp.leaseId, hp.before, hp.acknowledged⟩
    · cases hs
      exact h'.setPhase ⟨hp.leaseId, hp.before, hp.acknowledged⟩
    · cases hs
      exact h'.setPhase ⟨hp.leaseId, hp.before, hp.acknowledged⟩

/-- An acknowledged write makes its bytes good. -/
theorem Sound.writeAck (h : Sound cfg s) {failure : Option DownloadError}
    (hs : s.writeAck w failure = some s') : Sound cfg s' := by
  have hp := h.phases w
  simp only [SegmentedState.writeAck] at hs
  rcases ep : s.phases w with _ | lease | t | t | ⟨t, owned, truncated⟩ | ⟨t, f⟩ |
    ⟨t, f, retry⟩ | ⟨t, through⟩ | ⟨lease, todo⟩ | _ <;> rw [ep] at hs hp <;>
    simp only [reduceCtorEq] at hs
  rcases failure with - | err <;> simp only [Option.some.injEq] at hs <;> subst hs
  · -- the owned bytes are on disk, so the record vouches for them too
    have h' := h.write t.absOffset (t.absOffset + owned - 1)
    have hv : Vouches s.sched.ledger
        (Good cfg { s with written := s.written.insert t.absOffset (t.absOffset + owned - 1) })
        t.lease.id (t.validatedStart + (t.inRangeOffset + owned)) := by
      refine Vouches.extend (n := t.absOffset) ?_ fun b hle hlt => .inr ?_
      · have hold := h'.phases w
        simp only [ep] at hold
        exact hold
      · refine IntervalSet.mem_insert.mpr (.inr ⟨hle, ?_⟩)
        simp only [Transfer.absOffset] at hle ⊢
        omega
    have h'' := h'.setCell (w := w) (c := some
      { leaseId := t.lease.id, generation := t.lease.generation, leaseStart := t.lease.start,
        writtenThrough := t.validatedStart + (t.inRangeOffset + owned),
        receivedThrough := t.validatedStart + (t.inRangeOffset + owned) })
      fun r hr => by cases hr; exact hv
    refine h''.setPhase ?_
    split_ifs
    · exact hv
    · exact hv
  · exact h.setPhase (phaseOk_errorEnding hp.inUse _)

/-- **A write of the pipeline is carried out** at the place it was submitted
for. -/
theorem Sound.execute (h : Sound cfg s) {index : ℕ} {outcome : WriteOutcome}
    (hs : s.execute w index outcome = some s') : Sound cfg s' := by
  unfold SegmentedState.execute at hs
  rcases e : (s.queued w)[index]? with - | sub <;> rw [e] at hs
  · cases hs
  obtain rfl := Option.some.inj hs
  -- the write happens first, then its completion is queued
  have hwrite : Sound cfg { s with
      written := if outcome.isCompleted then s.written.insert sub.offset (sub.offset + sub.len - 1)
        else s.written } := by
    split_ifs
    · exact h.write _ _
    · exact h
  have hdone := hwrite.setCompletions w (s.completions w ++ [⟨sub, outcome⟩])
    fun c hc hk b h₁ h₂ => by
      rcases List.mem_append.mp hc with hc | hc
      · exact hwrite.completions hc hk b h₁ h₂
      · obtain rfl := List.mem_singleton.mp hc
        simp only at hk h₁ h₂ ⊢
        rw [if_pos hk]
        exact IntervalSet.mem_insert.mpr (.inr ⟨h₁, h₂⟩)
  exact ⟨hdone.wellFormed, hdone.total, hdone.backed, hdone.cells, hdone.completions, hdone.phases⟩

/-- A completion moves the frontier over good bytes. -/
theorem Sound.settleCompletion (h : Sound cfg s) {t : Transfer} {f : LeaseFrontier}
    {back : LeaseFrontier → Phase} (hf : FrontierOk s.sched.ledger (s.Good cfg) t f)
    (hback : ∀ f', FrontierOk s.sched.ledger (s.Good cfg) t f' →
      PhaseOk s.sched.ledger (s.Good cfg) (back f'))
    (hs : s.settleCompletion w t f back = some s') : Sound cfg s' := by
  unfold SegmentedState.settleCompletion at hs
  rcases e : s.completions w with - | ⟨c, rest⟩ <;> rw [e] at hs
  · cases hs
  have hcompl := fun {c'} (hc : c' ∈ s.completions w) => h.completions hc
  have h' := h.setCompletions w rest fun c' hc' =>
    hcompl (e ▸ List.mem_cons_of_mem _ hc')
  obtain ⟨hid, hstart, hack, hthrough⟩ := f.recordCompletion_spec c.submission.leaseId
    c.submission.generation c.submission.offset c.submission.len c.outcome.isCompleted
  simp only at hs
  generalize f.recordCompletion c.submission.leaseId c.submission.generation
    c.submission.offset c.submission.len c.outcome.isCompleted = r at hid hstart hack hthrough hs
  -- a byte enters the acknowledged set only after its write succeeded
  have hf' : FrontierOk s.sched.ledger (s.Good cfg) t r.2 := by
    refine ⟨hid.trans hf.leaseId, by rw [hstart]; exact hf.before, fun b hb => ?_⟩
    rcases hack b hb with hb | ⟨hk, h₁, h₂⟩
    · exact hf.acknowledged b hb
    · exact .inr (hcompl (e ▸ List.mem_cons_self ..) hk b h₁ h₂)
  rcases er : r.1 with through | _ | _ <;> rw [er] at hs <;>
    simp only [Option.some.injEq] at hs <;> subst hs
  · have h'' := h'.setCell (w := w) (c := some
      { leaseId := f.leaseId, generation := f.generation, leaseStart := f.start,
        writtenThrough := through, receivedThrough := f.receivedHighWater })
      fun rec hrec => by
        cases hrec
        rw [hthrough through er, hf.leaseId]
        exact hf'.through
    exact h''.setPhase (hback _ hf')
  · exact h'.setPhase (phaseOk_errorEnding hf.before.inUse _)
  · exact h'.setPhase (hback _ hf')

theorem Sound.drained (h : Sound cfg s) {t : Transfer} {f : LeaseFrontier}
    {retry : Option DownloadError} (hf : FrontierOk s.sched.ledger (s.Good cfg) t f)
    (hs : s.drained w t f retry = some s') : Sound cfg s' := by
  unfold SegmentedState.drained at hs
  by_cases hout : f.hasOutstanding = true
  · rw [if_pos hout] at hs; cases hs
  rw [if_neg hout] at hs
  rcases retry with - | err <;> simp only at hs
  · split_ifs at hs <;> cases hs
    · exact h.setPhase (phaseOk_errorEnding hf.before.inUse _)
    · -- closing is vouched for by the frontier itself
      exact h.setPhase hf.through
  · cases hs
    exact h.setPhase (phaseOk_errorEnding hf.before.inUse _)

/-- **What is credited was good**: only whole leases are settled so. -/
theorem Sound.performSettle (h : Sound cfg s) (w : ℕ) {lease : SegmentLease} (now : ℕ)
    {call : Settle}
    (hwhole : (∃ n, call = .reportProgress n) ∨ call = .complete →
      s.sched.ledger.WholeGood (s.Good cfg) lease.id) :
    Sound cfg (s.performSettle cfg w lease now call) := by
  cases call with
  | reconcile => exact h.reconcile _
  | reportProgress n =>
    refine h.setSched _ (s.sched.reportProgress_steps _ _ _)
      (SegmentScheduler.reportProgress_backed h.backed fun l hl b hb _ => ?_)
    exact hwhole (.inl ⟨n, rfl⟩) l hl b hb
  | clearCell => exact h.setCell fun r hr => by cases hr
  | complete =>
    have h' : Sound cfg { s with
        sched := (s.sched.complete lease.id lease.generation now).2 } := by
      rcases s.sched.complete_ledger lease.id lease.generation now with e | ⟨l, hget, -, e⟩
      · rw [e]; exact h
      · exact h.setSched _ (by rw [e]; exact .single (.credit hget))
          (by rw [e]; exact h.backed.credit hget (hwhole (.inr rfl)))
    exact ⟨h'.wellFormed, h'.total, h'.backed, h'.cells, h'.completions, h'.phases⟩
  | fail =>
    rcases s.sched.fail_ledger lease.id lease.generation now with e | ⟨l, hget, -, e⟩
    · simp only [SegmentedState.performSettle, e]; exact h
    · exact h.setSched _ (by rw [e]; exact .single (.giveBack hget))
        (by rw [e]; exact h.backed.giveBack hget)
  | bumpGeneration =>
    refine h.setSched _ s.sched.bumpGeneration_ledger
      (SegmentScheduler.foldl_reclaim_backed _ ⟨h.backed.completed, h.backed.acknowledged⟩)
  | decide e =>
    simp only [SegmentedState.performSettle]
    split
    · exact ⟨h.wellFormed, h.total, h.backed, h.cells, h.completions, h.phases⟩
    · exact ⟨h.wellFormed, h.total, h.backed, h.cells, h.completions, h.phases⟩
  | install e => exact ⟨h.wellFormed, h.total, h.backed, h.cells, h.completions, h.phases⟩

/-- A settlement makes its calls one by one. -/
theorem Sound.settle (h : Sound cfg s) {now : ℕ}
    (hs : s.workerStep cfg w (.settle now) = some s') : Sound cfg s' := by
  have hp := h.phases w
  simp only [workerStep] at hs
  rcases ep : s.phases w with _ | lease | t | t | ⟨t, owned, truncated⟩ | ⟨t, f⟩ |
    ⟨t, f, retry⟩ | ⟨t, through⟩ | ⟨lease, - | ⟨call, todo⟩⟩ | _ <;> rw [ep] at hs hp <;>
    simp only [reduceCtorEq, Option.some.injEq] at hs
  subst hs
  have h' := h.performSettle w now (hp.2 call (List.mem_cons_self ..))
  refine h'.setPhase ?_
  split_ifs
  · cases call with
    | decide e => simp only [afterSettle]; split_ifs <;> trivial
    | _ => trivial
  · -- the remaining calls are still covered in the new state
    have hp' := h'.phases w
    rw [performSettle_phases, ep] at hp'
    exact ⟨hp'.1, fun c hc => hp'.2 c (List.mem_cons_of_mem _ hc)⟩

/-- A body closes at or past the end its lease has in the scheduler. -/
def closesLease (s : SegmentedState) : SegmentedEvent → Bool
  | .worker w .finish =>
      match s.phases w with
      | .closing t through => (s.sched.active.get? t.lease.id).all fun l => l.stop < through
      | _ => true
  | _ => true

theorem Sound.finish (h : Sound cfg s) (hok : s.closesLease (.worker w .finish) = true)
    (hs : s.workerStep cfg w .finish = some s') : Sound cfg s' := by
  have hp := h.phases w
  simp only [workerStep] at hs
  simp only [closesLease] at hok
  rcases ep : s.phases w with _ | lease | t | t | ⟨t, owned, truncated⟩ | ⟨t, f⟩ |
    ⟨t, f, retry⟩ | ⟨t, through⟩ | ⟨lease, todo⟩ | _ <;> rw [ep] at hs hp <;>
    simp only [reduceCtorEq, Option.some.injEq] at hs
  rw [ep] at hok
  subst hs
  refine h.setPhase ⟨hp.inUse, fun call _ _ l hl b hb => ?_⟩
  -- here the condition is used: the written part reaches past the live end
  have hend : l.stop < through := by
    have hl : s.sched.active.get? t.lease.id = some l := hl
    simpa [hl] using hok
  exact hp.bytes l hl b hb (hb.2.trans_lt hend)

/-- **Every step whose bodies close their leases keeps the invariant.** -/
theorem Sound.step (h : Sound cfg s) {e : SegmentedEvent} (hok : s.closesLease e = true)
    (hs : segmentedStep cfg s e = some s') : Sound cfg s' := by
  cases e with
  | reconcile => cases hs; exact h.reconcile _
  | cancel => cases hs; exact ⟨h.wellFormed, h.total, h.backed, h.cells, h.completions, h.phases⟩
  | worker w e =>
    simp only [segmentedStep] at hs
    split_ifs at hs
    have hp := h.phases w
    cases e with
    | refresh => exact h.refresh hs
    | receive len => exact h.receive hs
    | writeAck failure => exact h.writeAck hs
    | execute index outcome => exact h.execute hs
    | bodyFault err => exact h.bodyFault hs
    | finish => exact h.finish hok hs
    | settle now => exact h.settle hs
    | acquire divisor now =>
      simp only [workerStep] at hs
      split at hs
      · split at hs
        · rename_i lease sched hacq
          cases hs
          exact h.acquire hacq
        · cases hs
          exact h.setSched _ .refl h.backed
      · cases hs
    | split id now =>
      simp only [workerStep] at hs
      split at hs
      · split at hs
        · cases hs
        · split at hs
          · rename_i lease sched hsplit
            cases hs
            exact h.split hsplit
          · cases hs
      · cases hs
    | exit =>
      simp only [workerStep] at hs
      split at hs
      · split_ifs at hs
        cases hs
        exact h.setPhase trivial
      · cases hs
    | respond status headers =>
      simp only [workerStep] at hs
      split at hs
      · rename_i lease ep
        cases hs
        exact h.respond ep status headers
      · cases hs
    | requestFault err =>
      simp only [workerStep] at hs
      split at hs
      · rename_i lease ep
        rw [ep] at hp
        cases hs
        exact h.setPhase (phaseOk_errorEnding hp.inUse _)
      · cases hs
    | settleCompletion =>
      simp only [workerStep] at hs
      split at hs
      · rename_i t f ep
        rw [ep] at hp
        refine h.settleCompletion hp ?_ hs
        exact fun _ hf => hf
      · rename_i t f retry ep
        rw [ep] at hp
        refine h.settleCompletion hp ?_ hs
        exact fun _ hf => hf
      · cases hs
    | endOfBody =>
      simp only [workerStep] at hs
      split at hs
      · rename_i t ep
        rw [ep] at hp
        cases hs
        exact h.setPhase hp
      · rename_i t f ep
        rw [ep] at hp
        cases hs
        exact h.setPhase hp
      · cases hs
    | drained =>
      simp only [workerStep] at hs
      split at hs
      · rename_i t f retry ep
        rw [ep] at hp
        exact h.drained hp hs
      · cases hs
    | abort =>
      simp only [workerStep] at hs
      split_ifs at hs
      split at hs
      · rename_i t ep
        rw [ep] at hp
        cases hs
        exact h.setPhase (phaseOk_errorEnding hp.inUse _)
      · rename_i t f ep
        rw [ep] at hp
        cases hs
        exact h.setPhase (phaseOk_errorEnding hp.before.inUse _)
      · rename_i t f retry ep
        rw [ep] at hp
        cases hs
        exact h.setPhase (phaseOk_errorEnding hp.before.inUse _)
      · cases hs

/-! ### Runs -/

theorem sound_init (cfg : SegmentedConfig) : Sound cfg (segmentedInit cfg) := by
  refine ⟨SegmentScheduler.initialized_wellFormed _ _ _, rfl, ⟨fun b hb => ?_, fun hl => ?_⟩,
    fun hr => ?_, fun hc => ?_, fun _ => trivial⟩
  · exact .inl (SegmentScheduler.mem_clampCompleted.mp hb).2
  · exact absurd hl (by simp [segmentedInit, SegmentScheduler.initialized])
  · cases hr
  · cases hc

end SegmentedState

open SegmentedState in
/-- **Coverage.**  In every run whose bodies close their leases, a completed
byte was admitted or written, and a complete job has every byte. -/
theorem segmented_coverage (cfg : SegmentedConfig) (s : SegmentedState)
    (h : Reach (segmentedStep cfg) (fun s e => s.closesLease e = true) (· = segmentedInit cfg) s) :
    (∀ b ∈ s.sched.completed, s.Good cfg b) ∧
      (s.sched.isComplete = true → ∀ b < cfg.totalSize, s.Good cfg b) := by
  have hsound : Sound cfg s := by
    refine Reach.invariant (fun s₀ h₀ => ?_) (fun s₁ e s₂ h₁ hok hs => ?_) h
    · rw [h₀]; exact sound_init cfg
    · exact h₁.step hok hs
  refine ⟨hsound.backed.completed, fun hcomplete b hb => ?_⟩
  -- a set inside the domain that counts all its bytes is the domain
  have hlen : s.sched.completed.len = cfg.totalSize := by
    simp only [SegmentScheduler.isComplete, Bool.or_eq_true, decide_eq_true_eq,
      hsound.total] at hcomplete
    exact hcomplete.resolve_left (by omega)
  have hwithin : ∀ b ∈ s.sched.completed, b < cfg.totalSize := fun b hb =>
    hsound.total ▸ hsound.wellFormed.owned.within .completed b hb
  exact hsound.backed.completed b (IntervalSet.mem_of_len_eq hwithin hlen hb)

/-! ### A complete run and a run that is not -/

/-- A 100-byte job with one worker on the lane path and nothing to resume. -/
def laneJob : SegmentedConfig where
  totalSize := 100
  validators := ⟨none, false, none, some 100⟩
  admitted := []
  policy := .new 1 100
  retry := ⟨true, true, true, 3⟩
  workers := 1
  pipelined := false

/-- One worker takes the whole file, gets an answer with the given
`Content-Range`, writes one chunk, sees the end of the body and settles. -/
def oneBody (contentRange : String) (len : ℕ) : List SegmentedEvent :=
  [SegmentedEvent.worker 0 (.acquire 0 0), .worker 0 (.respond 206 [("content-range", contentRange)]),
    .worker 0 .refresh, .worker 0 (.receive len), .worker 0 (.writeAck none),
    .worker 0 .endOfBody, .worker 0 .finish] ++ List.replicate 6 (SegmentedEvent.worker 0 (.settle 0))

/-- The job is complete, and all its bytes are right. -/
theorem segmented_coverage_full_body :
    ∃ s, runEvents (segmentedStep laneJob) (segmentedInit laneJob)
        (oneBody "bytes 0-99/100" 100) = some s ∧
      s.sched.isComplete = true ∧ ∀ b < 100, s.Good laneJob b := by
  obtain ⟨s, hrun⟩ := Option.isSome_iff_exists.mp
    (show (runEvents (segmentedStep laneJob) (segmentedInit laneJob)
      (oneBody "bytes 0-99/100" 100)).isSome from by decide)
  have hreach : Reach (segmentedStep laneJob) (fun s e => s.closesLease e = true)
      (· = segmentedInit laneJob) s :=
    .of_run (.start rfl) (by decide) hrun
  have hdone : ((runEvents (segmentedStep laneJob) (segmentedInit laneJob)
      (oneBody "bytes 0-99/100" 100)).map fun s => s.sched.isComplete) = some true := by decide
  rw [hrun] at hdone
  have hdone : s.sched.isComplete = true := Option.some.inj hdone
  exact ⟨s, hrun, hdone, (segmented_coverage laneJob s hreach).2 hdone⟩

/-- **A partial response that ends before the requested end passes validation**;
its 50 bytes complete the lease of 100, and byte 75 was never written. -/
theorem short_response_completes_unwritten :
    ¬ ∀ (cfg : SegmentedConfig) (s : SegmentedState),
      Reach (segmentedStep cfg) (fun _ _ => True) (· = segmentedInit cfg) s →
      (∀ b ∈ s.sched.completed, s.Good cfg b) ∧
        (s.sched.isComplete = true → ∀ b < cfg.totalSize, s.Good cfg b) := by
  intro h
  obtain ⟨s, hrun⟩ := Option.isSome_iff_exists.mp
    (show (runEvents (segmentedStep laneJob) (segmentedInit laneJob)
      (oneBody "bytes 0-49/100" 50)).isSome from by decide)
  have hreach : Reach (segmentedStep laneJob) (fun _ _ => True)
      (· = segmentedInit laneJob) s :=
    .of_run (.start rfl) (by decide) hrun
  have hend : ((runEvents (segmentedStep laneJob) (segmentedInit laneJob)
      (oneBody "bytes 0-49/100" 50)).map fun s =>
        (s.sched.completed.contains 75, s.written.contains 75)) = some (true, false) := by
    decide
  rw [hrun] at hend
  obtain ⟨hcompleted, hwritten⟩ := Prod.mk.inj (Option.some.inj hend)
  rcases (h laneJob s hreach).1 75 (IntervalSet.contains_eq_true.mp hcompleted) with
    ⟨r, hr, -⟩ | hw
  · cases hr
  · rw [IntervalSet.contains_eq_true.mpr hw] at hwritten
    cases hwritten

end KDown
