/-
KDown/SchedulerPartition.lean

No byte is lost or given twice: the partition invariant of the scheduler.

Completed bytes, pending bytes and active leases are the holders of the bytes
`[0, total)`.  Each ledger step relabels holders, so exact ownership
(`ExactlyOwned`) is kept by `ExactlyOwned.transfer`; the bounds of a lease's
frontier and the freshness of lease ids are kept alongside.

`SchedulerOp` is the interface of the scheduler with every argument a caller
can pass, stale and unknown ids included; `run_partition` states the partition
for every list of calls from every initialization.
-/
import KDown.SchedulerLedger
import KDown.Ownership
import Mathlib.Order.Interval.Set.Basic

namespace KDown

open Relation

/-! ### Holders of bytes -/

/-- Who may hold a byte. -/
inductive Holder
  | completed
  | pending
  | lease (id : ℕ)
  deriving DecidableEq

namespace Ledger

/-- The byte `b` is held by `o`. -/
def Holds (g : Ledger) : Holder → ℕ → Prop
  | .completed, b => b ∈ g.completed
  | .pending, b => b ∈ g.pending
  | .lease id, b => ∃ l, g.active.get? id = some l ∧ l.Spans b

/-- The partition invariant: every byte of the domain has one holder, every
frontier lies inside its lease, and the next lease id is above all ids in use. -/
structure WellFormed (g : Ledger) : Prop where
  owned : ExactlyOwned g.Holds {b | b < g.totalSize}
  bounds : ∀ {id l}, g.active.get? id = some l → l.InBounds
  fresh : ∀ {id l}, g.active.get? id = some l → id < g.nextLease

variable {g g' : Ledger}

/-! ### One step -/

theorem WellFormed.get?_nextLease (hg : g.WellFormed) : g.active.get? g.nextLease = none := by
  rcases e : g.active.get? g.nextLease with - | l
  · rfl
  · exact absurd (hg.fresh e) (lt_irrefl _)

/-- Carving hands the carved bytes from pending to the new lease. -/
theorem WellFormed.carve (hg : g.WellFormed) {start stop gapEnd : ℕ}
    (hgap : (start, gapEnd) ∈ g.pending.ranges) (hord : start ≤ stop) (hend : stop ≤ gapEnd) :
    (g.carve start stop).WellFormed := by
  have hpend : ∀ b, start ≤ b ∧ b ≤ stop → b ∈ g.pending := fun b hb =>
    IntervalSet.mem_iff_ranges.mpr ⟨_, hgap, by simp only; omega⟩
  have hnew := hg.get?_nextLease
  -- exactly the pending bytes of the carved range move to the new lease
  refine ⟨hg.owned.transfer (f := fun o b => if o = .pending ∧ start ≤ b ∧ b ≤ stop
    then .lease g.nextLease else o) ?_, ?_, ?_⟩
  · rintro (_ | _ | id) b
    · simp only [Holds, Ledger.carve]
      constructor
      · exact fun h => ⟨.completed, h, by simp⟩
      · rintro ⟨o, ho, heq⟩
        split_ifs at heq
        subst heq
        exact ho
    · simp only [Holds, Ledger.carve, IntervalSet.mem_subtract]
      constructor
      · exact fun h => ⟨.pending, h.1, by simp [h.2]⟩
      · rintro ⟨o, ho, heq⟩
        split_ifs at heq with hc
        subst heq
        exact ⟨ho, fun h => hc ⟨rfl, h⟩⟩
    · simp only [Holds, Ledger.carve, SortedMap.get?_insert]
      constructor
      · rintro ⟨l, hl, hb⟩
        split_ifs at hl with hid
        · cases hl
          exact ⟨.pending, hpend b hb, by rw [if_pos ⟨rfl, hb⟩, hid]⟩
        · exact ⟨.lease id, ⟨l, hl, hb⟩, by simp⟩
      · rintro ⟨o, ho, heq⟩
        split_ifs at heq with hc
        · cases heq
          exact ⟨g.freshLease start stop, by simp, hc.2⟩
        · subst heq
          obtain ⟨l, hl, hb⟩ := ho
          -- no active lease carries the id that is issued now
          have hid : id ≠ g.nextLease := by rintro rfl; rw [hnew] at hl; cases hl
          exact ⟨l, by simp [hid, hl], hb⟩
  · intro id l hl
    simp only [Ledger.carve, SortedMap.get?_insert] at hl
    split_ifs at hl
    · cases hl
      exact ⟨le_rfl, hord.trans (Nat.le_succ _), hord⟩
    · exact hg.bounds hl
  · intro id l hl
    simp only [Ledger.carve, SortedMap.get?_insert] at hl ⊢
    split_ifs at hl with hid
    · omega
    · exact (hg.fresh hl).trans (Nat.lt_succ_self _)

/-- Replacing a lease by one over the same interval moves no byte. -/
theorem WellFormed.advance (hg : g.WellFormed) {id next : ℕ} {lease : SegmentLease}
    (hget : g.active.get? id = some lease)
    (hnext : lease.nextOffset ≤ next ∨ next = lease.stop + 1) (hend : next ≤ lease.stop + 1) :
    (g.advance id lease next).WellFormed := by
  have hb := hg.bounds hget
  refine ⟨hg.owned.congr ?_, ?_, ?_⟩
  · rintro (_ | _ | a) b
    · rfl
    · rfl
    · simp only [Holds, Ledger.advance, SortedMap.get?_insert]
      split_ifs with ha
      · subst ha
        simp only [hget, Option.some.injEq, exists_eq_left']
        rfl
      · rfl
  · intro a l hl
    simp only [Ledger.advance, SortedMap.get?_insert] at hl
    split_ifs at hl
    · cases hl
      have h₁ := hb.start_le_next
      have h₂ := hb.start_le_stop
      exact ⟨by simp only; omega, hend, h₂⟩
    · exact hg.bounds hl
  · intro a l hl
    simp only [Ledger.advance, SortedMap.get?_insert] at hl
    split_ifs at hl with ha
    · subst ha
      exact hg.fresh hget
    · exact hg.fresh hl

/-- Removing a lease keeps the bounds and the freshness of the others. -/
theorem WellFormed.erase_facts (hg : g.WellFormed) {id a : ℕ} {l : SegmentLease}
    (hl : (g.active.erase id).get? a = some l) : l.InBounds ∧ a < g.nextLease := by
  rw [SortedMap.get?_erase] at hl
  split_ifs at hl
  exact ⟨hg.bounds hl, hg.fresh hl⟩

/-- Taking a lease apart: its bytes go where `dest` sends them, and no other
byte moves. -/
theorem WellFormed.dissolve (hg : g.WellFormed) {id : ℕ} {lease : SegmentLease}
    (hget : g.active.get? id = some lease) (dest : ℕ → Holder)
    (hactive : g'.active = g.active.erase id) (hnext : g'.nextLease = g.nextLease)
    (htotal : g'.totalSize = g.totalSize) (hdest : ∀ b a, dest b ≠ .lease a)
    (hcompleted : ∀ b, b ∈ g'.completed ↔
      b ∈ g.completed ∨ lease.Spans b ∧ dest b = .completed)
    (hpending : ∀ b, b ∈ g'.pending ↔ b ∈ g.pending ∨ lease.Spans b ∧ dest b = .pending) :
    g'.WellFormed := by
  refine ⟨?_, fun {a l} hl => ?_, fun {a l} hl => ?_⟩
  · rw [htotal]
    refine hg.owned.transfer (f := fun o b => if o = .lease id then dest b else o) ?_
    -- a byte of the lease is held by it, so its new holder is `dest b`
    have hspan : ∀ b, g.Holds (.lease id) b ↔ lease.Spans b := by
      intro b
      simp only [Holds, hget, Option.some.injEq, exists_eq_left']
    rintro (_ | _ | a) b
    · simp only [Holds, hcompleted]
      constructor
      · rintro (h | ⟨h, hd⟩)
        · exact ⟨.completed, h, by simp⟩
        · exact ⟨.lease id, (hspan b).mpr h, by simp [hd]⟩
      · rintro ⟨o, ho, heq⟩
        split_ifs at heq with hc
        · exact .inr ⟨(hspan b).mp (hc ▸ ho), heq⟩
        · subst heq; exact .inl ho
    · simp only [Holds, hpending]
      constructor
      · rintro (h | ⟨h, hd⟩)
        · exact ⟨.pending, h, by simp⟩
        · exact ⟨.lease id, (hspan b).mpr h, by simp [hd]⟩
      · rintro ⟨o, ho, heq⟩
        split_ifs at heq with hc
        · exact .inr ⟨(hspan b).mp (hc ▸ ho), heq⟩
        · subst heq; exact .inl ho
    · simp only [Holds, hactive, SortedMap.get?_erase]
      constructor
      · rintro ⟨l, hl, hb⟩
        split_ifs at hl with ha
        exact ⟨.lease a, ⟨l, hl, hb⟩, by simp [ha]⟩
      · rintro ⟨o, ho, heq⟩
        split_ifs at heq with hc
        · exact absurd heq (hdest b a)
        · subst heq
          obtain ⟨l, hl, hb⟩ := ho
          have ha : a ≠ id := fun h => hc (by rw [h])
          exact ⟨l, by simp [ha, hl], hb⟩
  · exact (hg.erase_facts (hactive ▸ hl)).1
  · exact hnext ▸ (hg.erase_facts (hactive ▸ hl)).2

theorem WellFormed.credit (hg : g.WellFormed) {id : ℕ} {lease : SegmentLease}
    (hget : g.active.get? id = some lease) : (g.credit id lease).WellFormed := by
  refine hg.dissolve hget (fun _ => .completed) rfl rfl rfl (by simp) ?_ ?_
  · intro b
    simp [Ledger.credit, SegmentLease.Spans]
  · intro b
    simp [Ledger.credit]

/-- A lease that is given back is pending again, up to its progress. -/
theorem WellFormed.giveBack (hg : g.WellFormed) {id : ℕ} {lease : SegmentLease}
    (hget : g.active.get? id = some lease) : (g.giveBack id lease).WellFormed := by
  have h₁ := (hg.bounds hget).start_le_next
  have h₂ := (hg.bounds hget).next_le
  refine hg.dissolve hget
    (fun b => if b < lease.nextOffset then .completed else .pending)
    rfl rfl rfl (fun b a => by split_ifs <;> simp) ?_ ?_
  · intro b
    have hdest : (if b < lease.nextOffset then Holder.completed else .pending) = .completed ↔
        b < lease.nextOffset := by split_ifs with h <;> simp [h]
    simp only [Ledger.giveBack, SegmentLease.Spans, hdest]
    split_ifs
    · exact IntervalSet.mem_insert.trans (or_congr_right (by omega))
    · exact ⟨.inl, fun h => h.resolve_right (by omega)⟩
  · intro b
    have hdest : (if b < lease.nextOffset then Holder.completed else .pending) = .pending ↔
        lease.nextOffset ≤ b := by split_ifs with h <;> simp [h]; omega
    simp only [Ledger.giveBack, SegmentLease.Spans, hdest]
    split_ifs
    · exact IntervalSet.mem_insert.trans (or_congr_right (by omega))
    · exact ⟨.inl, fun h => h.resolve_right (by omega)⟩

/-- Splitting hands the tail to the new lease. -/
theorem WellFormed.split (hg : g.WellFormed) {id newStart : ℕ} {lease : SegmentLease}
    (hget : g.active.get? id = some lease) (hlow : lease.nextOffset < newStart)
    (hend : newStart ≤ lease.stop) : (g.split id lease newStart).WellFormed := by
  have hnew := hg.get?_nextLease
  have hne : id ≠ g.nextLease := (hg.fresh hget).ne
  have h₁ := (hg.bounds hget).start_le_next
  -- exactly the bytes of the lease from `newStart` on move to the new lease
  refine ⟨hg.owned.transfer (f := fun o b => if o = .lease id ∧ newStart ≤ b
    then .lease g.nextLease else o) ?_, ?_, ?_⟩
  · rintro (_ | _ | a) b
    · simp only [Holds, Ledger.split]
      constructor
      · exact fun h => ⟨.completed, h, by simp⟩
      · rintro ⟨o, ho, heq⟩
        split_ifs at heq
        subst heq
        exact ho
    · simp only [Holds, Ledger.split]
      constructor
      · exact fun h => ⟨.pending, h, by simp⟩
      · rintro ⟨o, ho, heq⟩
        split_ifs at heq
        subst heq
        exact ho
    · simp only [Holds, Ledger.split, SortedMap.get?_insert]
      constructor
      · rintro ⟨l, hl, hb⟩
        split_ifs at hl with ha ha'
        · cases hl
          simp only [SegmentLease.Spans, freshLease] at hb
          exact ⟨.lease id, ⟨lease, hget, by simp only [SegmentLease.Spans]; omega⟩,
            by rw [if_pos ⟨rfl, hb.1⟩, ha]⟩
        · cases hl
          simp only [SegmentLease.Spans] at hb
          exact ⟨.lease id, ⟨lease, hget, by simp only [SegmentLease.Spans]; omega⟩,
            by rw [if_neg (by omega), ha']⟩
        · exact ⟨.lease a, ⟨l, hl, hb⟩, by simp [ha']⟩
      · rintro ⟨o, ho, heq⟩
        split_ifs at heq with hc
        · cases heq
          obtain ⟨rfl, hb⟩ := hc
          obtain ⟨l, hl, hlb⟩ := ho
          obtain rfl : lease = l := Option.some.inj (hget.symm.trans hl)
          exact ⟨g.freshLease newStart lease.stop, by simp, hb, hlb.2⟩
        · subst heq
          obtain ⟨l, hl, hlb⟩ := ho
          have ha : a ≠ g.nextLease := by rintro rfl; rw [hnew] at hl; cases hl
          -- the shortened lease keeps what did not move
          by_cases haid : a = id
          · subst haid
            obtain rfl : lease = l := Option.some.inj (hget.symm.trans hl)
            have hlow' : b < newStart := by
              by_contra hcon
              exact hc ⟨rfl, not_lt.mp hcon⟩
            refine ⟨{ lease with stop := newStart - 1 }, by simp [ha], hlb.1, ?_⟩
            simp only
            omega
          · exact ⟨l, by simp [ha, haid, hl], hlb⟩
  · intro a l hl
    simp only [Ledger.split, SortedMap.get?_insert] at hl
    split_ifs at hl
    · cases hl
      exact ⟨le_rfl, hend.trans (Nat.le_succ _), hend⟩
    · cases hl
      exact ⟨h₁, by simp only; omega, by simp only; omega⟩
    · exact hg.bounds hl
  · intro a l hl
    simp only [Ledger.split, SortedMap.get?_insert] at hl ⊢
    split_ifs at hl with ha ha'
    · omega
    · have := hg.fresh hget; omega
    · exact (hg.fresh hl).trans (Nat.lt_succ_self _)

/-- **Every ledger step keeps the partition.** -/
theorem WellFormed.step (hg : g.WellFormed) (h : Step g g') : g'.WellFormed := by
  cases h with
  | carve hgap hord hend => exact hg.carve hgap hord hend
  | advance hget hnext hend => exact hg.advance hget hnext hend
  | credit hget => exact hg.credit hget
  | giveBack hget => exact hg.giveBack hget
  | split hget hlow hend => exact hg.split hget hlow hend
  | bump => exact ⟨hg.owned, hg.bounds, hg.fresh⟩

theorem WellFormed.steps (hg : g.WellFormed) (h : ReflTransGen Step g g') : g'.WellFormed := by
  induction h with
  | refl => exact hg
  | tail _ hstep ih => exact ih.step hstep

/-- The domain never changes, and lease ids are only ever counted up. -/
theorem Step.totalSize_eq (h : Step g g') : g'.totalSize = g.totalSize := by
  cases h <;> rfl

theorem Step.nextLease_le (h : Step g g') : g.nextLease ≤ g'.nextLease := by
  cases h <;> first | exact le_rfl | exact Nat.le_succ _

end Ledger

/-! ### Initialization -/

namespace SegmentScheduler

/-- The clamped set has the bytes of the ranges below the total. -/
theorem mem_clampCompleted {total : ℕ} {ranges : List ByteRange} {b : ℕ} :
    b ∈ clampCompleted total ranges ↔ b < total ∧ ∃ r ∈ ranges, r.1 ≤ b ∧ b ≤ r.2 := by
  have hfold : ∀ (l : List ByteRange) (set : IntervalSet),
      b ∈ l.foldl (fun set r => if total ≤ r.1 then set
        else set.insert r.1 (min r.2 (total - 1))) set ↔
      b ∈ set ∨ b < total ∧ ∃ r ∈ l, r.1 ≤ b ∧ b ≤ r.2 := by
    intro l
    -- the clamp is the intersection with the domain
    induction l with
    | nil => simp
    | cons r l ih =>
      intro set
      rw [List.foldl_cons, ih, List.exists_mem_cons_iff, and_or_left, ← or_assoc]
      refine or_congr_left ?_
      split_ifs with hr
      · exact ⟨.inl, fun h => h.resolve_right (by omega)⟩
      · rw [IntervalSet.mem_insert]
        exact or_congr_right (by omega)
  rw [clampCompleted, hfold]
  simp

/-- **A new scheduler is well formed**, with or without a checkpoint. -/
theorem initialized_wellFormed (total : ℕ) (ranges : List ByteRange) (policy : SchedulerPolicy) :
    (initialized total ranges policy).ledger.WellFormed := by
  have hlt : ∀ b ∈ clampCompleted total ranges, b < total := fun b hb =>
    (mem_clampCompleted.mp hb).1
  have hpend : ∀ b, b ∈ (initialized total ranges policy).pending ↔
      b < total ∧ b ∉ clampCompleted total ranges := by
    intro b
    simp only [initialized]
    split_ifs with h₀
    · simp [h₀]
    · rw [IntervalSet.mem_fromRanges, IntervalSet.mem_complementWithin hlt]
  have hactive : ∀ id l, (initialized total ranges policy).ledger.active.get? id ≠ some l := by
    intro id l
    simp [initialized]
  have hlease : ∀ id b, ¬ (initialized total ranges policy).ledger.Holds (.lease id) b := by
    rintro id b ⟨l, hl, -⟩
    exact hactive id l hl
  refine ⟨⟨?_, ?_, ?_⟩, fun {id l} hl => absurd hl (hactive id l),
    fun {id l} hl => absurd hl (hactive id l)⟩
  · intro b hb
    by_cases hc : b ∈ clampCompleted total ranges
    · exact ⟨.completed, hc⟩
    · exact ⟨.pending, (hpend b).mpr ⟨hb, hc⟩⟩
  · rintro (_ | _ | id) b hb
    · exact hlt b hb
    · exact ((hpend b).mp hb).1
    · exact absurd hb (hlease id b)
  · rintro (_ | _ | id) (_ | _ | id') b hb hb'
    · rfl
    · exact absurd hb ((hpend b).mp hb').2
    · exact absurd hb' (hlease id' b)
    · exact absurd hb' ((hpend b).mp hb).2
    · rfl
    · exact absurd hb' (hlease id' b)
    · exact absurd hb (hlease id b)
    · exact absurd hb (hlease id b)
    · exact absurd hb (hlease id b)

end SegmentScheduler

/-! ### Runs -/

/-- A call of the scheduler, with every argument its caller passes. -/
inductive SchedulerOp
  | acquire (now : ℕ)
  | reportProgress (leaseId generation offset : ℕ)
  | absorbWorkerProgress (cells : List (Option LeaseRecord))
  | complete (leaseId generation now : ℕ)
  | fail (leaseId generation now : ℕ)
  | release (leaseId generation : ℕ)
  | splitTail (leaseId generation minTail receivedThrough now : ℕ)
  | bumpGeneration
  | setReadyWorkDivisor (divisor : ℕ)

namespace SegmentScheduler

/-- Perform a call; the list holds the lease it issued, if any. -/
def apply (s : SegmentScheduler) : SchedulerOp → SegmentScheduler × List SegmentLease
  | .acquire now =>
      match s.acquire now with
      | some (lease, s') => (s', [lease])
      | none => (s, [])
  | .reportProgress id generation offset => ((s.reportProgress id generation offset).2, [])
  | .absorbWorkerProgress cells => ((s.absorbWorkerProgress cells).2, [])
  | .complete id generation now => ((s.complete id generation now).2, [])
  | .fail id generation now => ((s.fail id generation now).2, [])
  | .release id generation => ((s.release id generation).2, [])
  | .splitTail id generation minTail received now =>
      match s.splitTail id generation minTail received now with
      | some (lease, s') => (s', [lease])
      | none => (s, [])
  | .bumpGeneration => (s.bumpGeneration, [])
  | .setReadyWorkDivisor divisor => (s.setReadyWorkDivisor divisor, [])

/-- Perform a list of calls, collecting the issued leases. -/
def run (s : SegmentScheduler) : List SchedulerOp → SegmentScheduler × List SegmentLease
  | [] => (s, [])
  | op :: ops =>
      let r := s.apply op
      let rest := r.1.run ops
      (rest.1, r.2 ++ rest.2)

theorem absorbCell_steps (s : SegmentScheduler) (cell : Option LeaseRecord) :
    ReflTransGen Ledger.Step s.ledger (s.absorbCell cell).2.ledger := by
  unfold absorbCell
  rcases cell with - | record
  · exact .refl
  simp only
  rcases s.leaseNextOffset record.leaseId with - | before
  · exact .refl
  simp only
  split_ifs
  · exact s.reportProgress_steps _ _ _
  · exact s.reportProgress_steps _ _ _

theorem absorbWorkerProgress_steps (s : SegmentScheduler) (cells : List (Option LeaseRecord)) :
    ReflTransGen Ledger.Step s.ledger (s.absorbWorkerProgress cells).2.ledger := by
  induction cells generalizing s with
  | nil => exact .refl
  | cons cell cells ih => exact (s.absorbCell_steps cell).trans (ih _)

/-- A call is a sequence of ledger steps. -/
theorem apply_steps (s : SegmentScheduler) (op : SchedulerOp) :
    ReflTransGen Ledger.Step s.ledger (s.apply op).1.ledger := by
  cases op with
  | acquire now =>
    simp only [apply]
    rcases e : s.acquire now with - | ⟨lease, s'⟩
    · exact .refl
    · obtain ⟨start, stop, gapEnd, hgap, hord, hend, -, h⟩ := acquire_ledger e
      rw [h]
      exact .single (.carve hgap hord hend)
  | reportProgress id generation offset => exact s.reportProgress_steps id generation offset
  | absorbWorkerProgress cells => exact s.absorbWorkerProgress_steps cells
  | complete id generation now =>
    simp only [apply]
    rcases s.complete_ledger id generation now with h | ⟨lease, hget, -, h⟩
    · rw [h]
    · rw [h]; exact .single (.credit hget)
  | fail id generation now =>
    simp only [apply]
    rcases s.fail_ledger id generation now with h | ⟨lease, hget, -, h⟩
    · rw [h]
    · rw [h]; exact .single (.giveBack hget)
  | release id generation =>
    simp only [apply]
    rcases s.release_ledger id generation with h | ⟨lease, hget, -, h⟩
    · rw [h]
    · rw [h]; exact .single (.giveBack hget)
  | splitTail id generation minTail received now =>
    simp only [apply]
    rcases e : s.splitTail id generation minTail received now with - | ⟨lease, s'⟩
    · exact .refl
    · obtain ⟨l, newStart, hget, -, hlow, -, hend, -, h⟩ := splitTail_ledger e
      rw [h]
      exact .single (.split hget hlow hend)
  | bumpGeneration => exact s.bumpGeneration_ledger
  | setReadyWorkDivisor divisor => exact .refl

/-- The leases a call issues carry the id the counter stood at, and the
counter moves past it. -/
theorem apply_issued (s : SegmentScheduler) (op : SchedulerOp) :
    (s.apply op).2 = [] ∨
      ∃ lease, (s.apply op).2 = [lease] ∧ lease.id = s.nextLease ∧
        (s.apply op).1.nextLease = s.nextLease + 1 := by
  cases op with
  | acquire now =>
    simp only [apply]
    rcases e : s.acquire now with - | ⟨lease, s'⟩
    · exact .inl rfl
    · obtain ⟨start, stop, gapEnd, -, -, -, rfl, h⟩ := acquire_ledger e
      exact .inr ⟨_, rfl, rfl, congrArg Ledger.nextLease h⟩
  | splitTail id generation minTail received now =>
    simp only [apply]
    rcases e : s.splitTail id generation minTail received now with - | ⟨lease, s'⟩
    · exact .inl rfl
    · obtain ⟨l, newStart, -, -, -, -, -, rfl, h⟩ := splitTail_ledger e
      exact .inr ⟨_, rfl, rfl, congrArg Ledger.nextLease h⟩
  | reportProgress => exact .inl rfl
  | absorbWorkerProgress => exact .inl rfl
  | complete => exact .inl rfl
  | fail => exact .inl rfl
  | release => exact .inl rfl
  | bumpGeneration => exact .inl rfl
  | setReadyWorkDivisor => exact .inl rfl

theorem steps_nextLease_le {g g' : Ledger} (h : ReflTransGen Ledger.Step g g') :
    g.nextLease ≤ g'.nextLease := by
  induction h with
  | refl => exact le_rfl
  | tail _ hstep ih => exact ih.trans hstep.nextLease_le

theorem steps_totalSize {g g' : Ledger} (h : ReflTransGen Ledger.Step g g') :
    g'.totalSize = g.totalSize := by
  induction h with
  | refl => rfl
  | tail _ hstep ih => exact hstep.totalSize_eq.trans ih

theorem run_steps (s : SegmentScheduler) (ops : List SchedulerOp) :
    ReflTransGen Ledger.Step s.ledger (s.run ops).1.ledger := by
  induction ops generalizing s with
  | nil => exact .refl
  | cons op ops ih => exact (s.apply_steps op).trans (ih _)

/-- Every lease issued in a run has its own id, none below the counter the run
started from. -/
theorem run_issued (s : SegmentScheduler) (ops : List SchedulerOp) :
    ((s.run ops).2.map SegmentLease.id).Nodup ∧
      ∀ lease ∈ (s.run ops).2, s.nextLease ≤ lease.id := by
  induction ops generalizing s with
  | nil => exact ⟨List.nodup_nil, fun lease h => by cases h⟩
  | cons op ops ih =>
    obtain ⟨hnd, hlow⟩ := ih (s.apply op).1
    have hmono : s.nextLease ≤ (s.apply op).1.nextLease := steps_nextLease_le (s.apply_steps op)
    simp only [run]
    rcases s.apply_issued op with h | ⟨lease, h, hid, hnext⟩
    · rw [h, List.nil_append]
      exact ⟨hnd, fun lease hl => hmono.trans (hlow lease hl)⟩
    · rw [h, List.singleton_append, List.map_cons, List.nodup_cons]
      -- later leases have larger ids
      refine ⟨⟨fun hmem => ?_, hnd⟩, fun l hl => ?_⟩
      · obtain ⟨l, hl, hle⟩ := List.mem_map.mp hmem
        have := hlow l hl
        omega
      · rcases List.mem_cons.mp hl with rfl | hl
        · exact hid.ge
        · exact hmono.trans (hlow l hl)

/-- The bytes of a lease's interval. -/
def leaseBytes (l : SegmentLease) : Set ℕ := Set.Icc l.start l.stop

/-- The bytes of an interval set. -/
def bytes (s : IntervalSet) : Set ℕ := {b | b ∈ s}

/-- **Partition.**  After any calls from any initialization, completed bytes,
pending bytes and the intervals of the active leases are pairwise disjoint
and make up `[0, total)`; every frontier lies in its lease; and no lease id
was issued twice. -/
theorem run_partition (total : ℕ) (ranges : List ByteRange) (policy : SchedulerPolicy)
    (ops : List SchedulerOp) :
    let r := (initialized total ranges policy).run ops
    Disjoint (bytes r.1.completed) (bytes r.1.pending) ∧
    (∀ id l, r.1.active.get? id = some l →
      Disjoint (bytes r.1.completed) (leaseBytes l) ∧
      Disjoint (bytes r.1.pending) (leaseBytes l)) ∧
    (∀ id l id' l', r.1.active.get? id = some l → r.1.active.get? id' = some l' → id ≠ id' →
      Disjoint (leaseBytes l) (leaseBytes l')) ∧
    bytes r.1.completed ∪ bytes r.1.pending ∪
      (⋃ id, {b | ∃ l, r.1.active.get? id = some l ∧ b ∈ leaseBytes l}) = Set.Iio total ∧
    (∀ id l, r.1.active.get? id = some l → l.start ≤ l.nextOffset ∧ l.nextOffset ≤ l.stop + 1) ∧
    (r.2.map SegmentLease.id).Nodup := by
  intro r
  have hsteps := (initialized total ranges policy).run_steps ops
  have hwf := (initialized_wellFormed total ranges policy).steps hsteps
  have htotal : r.1.totalSize = total := steps_totalSize hsteps
  have hholds : ∀ {id l b}, r.1.active.get? id = some l → b ∈ leaseBytes l →
      r.1.ledger.Holds (.lease id) b := fun hl hb => ⟨_, hl, hb⟩
  refine ⟨?_, ?_, ?_, ?_, ?_, (run_issued _ ops).1⟩
  · exact hwf.owned.disjoint .completed .pending (by simp)
  · intro id l hl
    refine ⟨Set.disjoint_left.mpr fun b hb hb' => ?_, Set.disjoint_left.mpr fun b hb hb' => ?_⟩
    · cases hwf.owned.unique .completed (.lease id) b hb (hholds hl hb')
    · cases hwf.owned.unique .pending (.lease id) b hb (hholds hl hb')
  · intro id l id' l' hl hl' hne
    refine Set.disjoint_left.mpr fun b hb hb' => hne ?_
    cases hwf.owned.unique _ _ b (hholds hl hb) (hholds hl' hb')
    rfl
  · have hunion := hwf.owned.iUnion
    rw [ledger_totalSize, htotal] at hunion
    refine Eq.trans (Set.ext fun b => ?_) hunion
    simp only [Set.mem_union, Set.mem_iUnion]
    constructor
    · rintro ((h | h) | ⟨id, h⟩)
      · exact ⟨.completed, h⟩
      · exact ⟨.pending, h⟩
      · exact ⟨.lease id, h⟩
    · rintro ⟨_ | _ | id, h⟩
      · exact .inl (.inl h)
      · exact .inl (.inr h)
      · exact .inr ⟨id, h⟩
  · intro id l hl
    exact ⟨(hwf.bounds hl).start_le_next, (hwf.bounds hl).next_le⟩

end SegmentScheduler

end KDown
