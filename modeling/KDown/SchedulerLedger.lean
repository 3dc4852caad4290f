/-
KDown/SchedulerLedger.lean

What the scheduler's operations do to the ownership of bytes.

`Ledger` keeps the fields of the scheduler that say who owns which byte and
forgets sizing and timing.  `Ledger.Step` lists the ways a ledger changes:
carve a lease out of pending, advance a frontier, credit or give back a
lease, split one, start a generation.  One spec lemma per scheduler operation
says which of these it performs (`acquire_ledger`, `reportProgress_ledger`,
`complete_ledger`, `fail_ledger`, `release_ledger`, `splitTail_ledger`,
`bumpGeneration_ledger`), so later invariants are proved over six cases and
never unfold an operation.
-/
import KDown.Scheduler
import Mathlib.Logic.Relation

namespace KDown

/-! ### The ledger -/

/-- The ownership part of a scheduler. -/
structure Ledger where
  totalSize : ℕ
  pending : IntervalSet
  active : SortedMap ℕ SegmentLease
  completed : IntervalSet
  nextLease : ℕ
  generation : ℕ

namespace Ledger

/-- Issue the next lease over `[start, stop]`. -/
def freshLease (g : Ledger) (start stop : ℕ) : SegmentLease :=
  { id := g.nextLease, generation := g.generation, start := start, stop := stop,
    nextOffset := start }

/-- A lease is carved out of the pending bytes. -/
def carve (g : Ledger) (start stop : ℕ) : Ledger :=
  { g with
    nextLease := g.nextLease + 1
    pending := g.pending.subtract start stop
    active := g.active.insert g.nextLease (g.freshLease start stop) }

/-- The lease has got further. -/
def advance (g : Ledger) (id : ℕ) (lease : SegmentLease) (next : ℕ) : Ledger :=
  { g with active := g.active.insert id { lease with nextOffset := next } }

/-- The lease is completed as a whole. -/
def credit (g : Ledger) (id : ℕ) (lease : SegmentLease) : Ledger :=
  { g with
    active := g.active.erase id
    completed := g.completed.insert lease.start lease.stop }

/-- What is left of the lease is pending again, and the rest completed. -/
def giveBack (g : Ledger) (id : ℕ) (lease : SegmentLease) : Ledger :=
  { g with
    active := g.active.erase id
    pending :=
      if lease.nextOffset ≤ lease.stop then g.pending.insert lease.nextOffset lease.stop
      else g.pending
    completed :=
      if lease.start < lease.nextOffset then g.completed.insert lease.start (lease.nextOffset - 1)
      else g.completed }

/-- The tail of the lease becomes another one. -/
def split (g : Ledger) (id : ℕ) (lease : SegmentLease) (newStart : ℕ) : Ledger :=
  { g with
    nextLease := g.nextLease + 1
    active := (g.active.insert id { lease with stop := newStart - 1 }).insert g.nextLease
      (g.freshLease newStart lease.stop) }

/-- One change of ownership. -/
inductive Step (g : Ledger) : Ledger → Prop
  | carve {start stop gapEnd : ℕ} : (start, gapEnd) ∈ g.pending.ranges → start ≤ stop →
      stop ≤ gapEnd → Step g (g.carve start stop)
  | advance {id lease next} : g.active.get? id = some lease →
      lease.nextOffset ≤ next ∨ next = lease.stop + 1 → next ≤ lease.stop + 1 →
      Step g (g.advance id lease next)
  | credit {id lease} : g.active.get? id = some lease → Step g (g.credit id lease)
  | giveBack {id lease} : g.active.get? id = some lease → Step g (g.giveBack id lease)
  | split {id lease newStart} : g.active.get? id = some lease → lease.nextOffset < newStart →
      newStart ≤ lease.stop → Step g (g.split id lease newStart)
  | bump : Step g { g with generation := g.generation + 1 }

end Ledger

namespace SegmentScheduler

/-- The ownership part of a scheduler state. -/
def ledger (s : SegmentScheduler) : Ledger where
  totalSize := s.totalSize
  pending := s.pending
  active := s.active
  completed := s.completed
  nextLease := s.nextLease
  generation := s.generation

@[simp] theorem ledger_totalSize (s : SegmentScheduler) : s.ledger.totalSize = s.totalSize := rfl
@[simp] theorem ledger_pending (s : SegmentScheduler) : s.ledger.pending = s.pending := rfl
@[simp] theorem ledger_active (s : SegmentScheduler) : s.ledger.active = s.active := rfl

/-! ### Lease lengths -/

theorem applyReadyWorkCap_pos (p : SchedulerPolicy) {want gapLen : ℕ} (h : 1 ≤ want) :
    1 ≤ p.applyReadyWorkCap want gapLen := by
  unfold SchedulerPolicy.applyReadyWorkCap
  split_ifs
  · exact h
  · simp only
    split_ifs
    · exact le_min h ((le_max_right _ _).trans (le_max_right _ _))
    · exact h

theorem targetLen_pos (p : SchedulerPolicy) {gapLen : ℕ} (h : 1 ≤ gapLen) (t : Option ℕ) :
    1 ≤ p.targetLen gapLen t := by
  refine applyReadyWorkCap_pos p ?_
  have := p.min_pos
  omega

theorem nextSize_pos (d : DurationTarget) (minSize maxSize gapLen : ℕ) :
    1 ≤ d.nextSize minSize maxSize gapLen := by
  unfold DurationTarget.nextSize
  split_ifs
  · exact le_max_right _ _
  · exact (le_max_right _ _).trans (le_max_right _ _)

theorem targetLenForGap_pos (s : SegmentScheduler) {gapLen : ℕ} (h : 1 ≤ gapLen) :
    1 ≤ s.targetLenForGap gapLen := by
  unfold targetLenForGap
  refine applyReadyWorkCap_pos _ ?_
  rcases s.durationTarget with - | d
  · exact targetLen_pos _ h _
  · exact nextSize_pos d _ _ _

/-! ### What each operation does -/

/-- **`acquire` carves a lease** out of a gap of the pending bytes. -/
theorem acquire_ledger {s s' : SegmentScheduler} {now : ℕ} {lease : SegmentLease}
    (h : s.acquire now = some (lease, s')) :
    ∃ start stop gapEnd, (start, gapEnd) ∈ s.pending.ranges ∧ start ≤ stop ∧ stop ≤ gapEnd ∧
      lease = s.ledger.freshLease start stop ∧ s'.ledger = s.ledger.carve start stop := by
  unfold acquire at h
  rcases e : s.pending.ranges.head? with - | ⟨lo, hi⟩ <;> rw [e] at h
  · cases h
  obtain ⟨rfl, rfl⟩ := Prod.mk.inj (Option.some.inj h)
  have hmem : (lo, hi) ∈ s.pending.ranges := List.mem_of_mem_head? (by simp [e])
  have hord := IntervalSet.ordered_of_mem_ranges hmem
  -- a carve is never empty, whatever the sizing policy says
  have hpos : 1 ≤ s.targetLenForGap (hi - lo + 1) := s.targetLenForGap_pos (by omega)
  simp only at hord
  exact ⟨lo, _, hi, hmem, by simp only; omega, min_le_right _ _, rfl, rfl⟩

/-- **`report_progress` advances a lease**, or leaves the ledger as it is. -/
theorem reportProgress_ledger (s : SegmentScheduler) (id generation offset : ℕ) :
    (s.reportProgress id generation offset).2 = s ∨
    ∃ lease, s.active.get? id = some lease ∧ lease.generation = generation ∧
      lease.nextOffset < offset ∧
      (s.reportProgress id generation offset).2.ledger =
        s.ledger.advance id lease (min offset (lease.stop + 1)) := by
  unfold reportProgress
  rcases e : s.active.get? id with - | lease
  · exact .inl rfl
  simp only
  split_ifs with hgen hle
  · exact .inl rfl
  · exact .inl rfl
  · exact .inr ⟨lease, rfl, not_not.mp hgen, not_le.mp hle, rfl⟩

@[simp] theorem observeDurationSample_ledger (s : SegmentScheduler) (lease : SegmentLease)
    (bytes now : ℕ) : (s.observeDurationSample lease bytes now).ledger = s.ledger := by
  unfold observeDurationSample
  rcases s.durationTarget with - | d <;> rfl

/-- Putting a rejected lease back leaves the map as it was. -/
theorem ledger_reinsert {s : SegmentScheduler} {id : ℕ} {lease : SegmentLease}
    (h : s.active.get? id = some lease) :
    ({ s with active := (s.active.erase id).insert id lease } : SegmentScheduler) = s := by
  rw [SortedMap.insert_erase_self h]

/-- A completion of the current generation credits the whole lease. -/
theorem complete_of_get? {s : SegmentScheduler} {id generation : ℕ} {lease : SegmentLease}
    (hget : s.active.get? id = some lease) (hgen : lease.generation = generation) (now : ℕ) :
    (s.complete id generation now).2.ledger = s.ledger.credit id lease := by
  unfold complete
  rw [hget]
  simp only
  rw [if_neg (not_not.mpr hgen)]
  -- the duration sample in between does not touch the ledger
  have h := observeDurationSample_ledger { s with active := s.active.erase id } lease
    (lease.stop - lease.start + 1) now
  simp only [ledger, Ledger.mk.injEq] at h
  simp only [ledger, Ledger.credit, h]

/-- **`complete` credits a lease**, or leaves the ledger as it is. -/
theorem complete_ledger (s : SegmentScheduler) (id generation now : ℕ) :
    (s.complete id generation now).2 = s ∨
    ∃ lease, s.active.get? id = some lease ∧ lease.generation = generation ∧
      (s.complete id generation now).2.ledger = s.ledger.credit id lease := by
  rcases e : s.active.get? id with - | lease
  · left
    simp only [complete, e]
  by_cases hgen : lease.generation = generation
  · exact .inr ⟨lease, rfl, hgen, complete_of_get? e hgen now⟩
  · left
    simp only [complete, e]
    rw [if_pos hgen]
    exact ledger_reinsert e

/-- A failure of the current generation gives the lease back. -/
theorem fail_of_get? {s : SegmentScheduler} {id generation : ℕ} {lease : SegmentLease}
    (hget : s.active.get? id = some lease) (hgen : lease.generation = generation) (now : ℕ) :
    (s.fail id generation now).2.ledger = s.ledger.giveBack id lease := by
  unfold fail
  rw [hget]
  simp only
  rw [if_neg (not_not.mpr hgen)]
  have h := observeDurationSample_ledger { s with active := s.active.erase id } lease
    (lease.nextOffset - lease.start) now
  simp only [ledger, Ledger.mk.injEq] at h
  simp only [ledger, giveBack, Ledger.giveBack, h]

/-- **`fail` gives a lease back**, or leaves the ledger as it is. -/
theorem fail_ledger (s : SegmentScheduler) (id generation now : ℕ) :
    (s.fail id generation now).2 = s ∨
    ∃ lease, s.active.get? id = some lease ∧ lease.generation = generation ∧
      (s.fail id generation now).2.ledger = s.ledger.giveBack id lease := by
  rcases e : s.active.get? id with - | lease
  · left
    simp only [fail, e]
  by_cases hgen : lease.generation = generation
  · exact .inr ⟨lease, rfl, hgen, fail_of_get? e hgen now⟩
  · left
    simp only [fail, e]
    rw [if_pos hgen]
    exact ledger_reinsert e

/-- **`release` gives a lease back**, or leaves the ledger as it is. -/
theorem release_ledger (s : SegmentScheduler) (id generation : ℕ) :
    (s.release id generation).2.ledger = s.ledger ∨
    ∃ lease, s.active.get? id = some lease ∧ lease.generation = generation ∧
      (s.release id generation).2.ledger = s.ledger.giveBack id lease := by
  unfold release
  rcases e : s.active.get? id with - | lease
  · exact .inl rfl
  simp only
  split_ifs with hgen
  · left
    simp only [ledger, SortedMap.insert_erase_self e]
  · exact .inr ⟨lease, rfl, not_not.mp hgen, rfl⟩

/-- **`split_tail` makes two leases of one.** -/
theorem splitTail_ledger {s s' : SegmentScheduler} {id generation minTail received now : ℕ}
    {new : SegmentLease} (h : s.splitTail id generation minTail received now = some (new, s')) :
    ∃ lease newStart, s.active.get? id = some lease ∧ lease.generation = generation ∧
      lease.nextOffset < newStart ∧ received < newStart ∧ newStart ≤ lease.stop ∧
      new = s.ledger.freshLease newStart lease.stop ∧
      s'.ledger = s.ledger.split id lease newStart := by
  unfold splitTail at h
  rcases e : s.active.get? id with - | lease <;> rw [e] at h
  · cases h
  simp only at h
  by_cases hgen : lease.generation ≠ generation
  · rw [if_pos hgen] at h; cases h
  by_cases hlen : lease.stop - max lease.nextOffset received + 1 ≤ max minTail 1
  · rw [if_neg hgen, if_pos hlen] at h; cases h
  rw [if_neg hgen, if_neg hlen] at h
  obtain ⟨rfl, rfl⟩ := Prod.mk.inj (Option.some.inj h)
  -- the new start lies past both frontiers because less than the tail is taken
  refine ⟨lease, _, rfl, not_not.mp hgen, ?_, ?_, ?_, rfl, rfl⟩ <;>
    · unfold clamp
      split_ifs <;> omega

/-- Giving back every active lease, one at a time. -/
theorem reclaim_ledger (s : SegmentScheduler) (id : ℕ) :
    (s.reclaim id).ledger = s.ledger ∨
    ∃ lease, s.active.get? id = some lease ∧
      (s.reclaim id).ledger = s.ledger.giveBack id lease := by
  unfold reclaim
  rcases e : s.active.get? id with - | lease
  · exact .inl rfl
  · exact .inr ⟨lease, rfl, rfl⟩

theorem foldl_reclaim_ledger (ids : List ℕ) (s : SegmentScheduler) :
    Relation.ReflTransGen Ledger.Step s.ledger (ids.foldl reclaim s).ledger := by
  -- ids that are no longer active are skipped
  induction ids generalizing s with
  | nil => exact .refl
  | cons id ids ih =>
    refine Relation.ReflTransGen.trans ?_ (ih (s.reclaim id))
    rcases s.reclaim_ledger id with h | ⟨lease, hget, h⟩
    · rw [h]
    · rw [h]
      exact .single (.giveBack hget)

/-- **`bump_generation` gives all leases back.** -/
theorem bumpGeneration_ledger (s : SegmentScheduler) :
    Relation.ReflTransGen Ledger.Step s.ledger s.bumpGeneration.ledger :=
  (foldl_reclaim_ledger s.active.keys { s with generation := s.generation + 1 }).head .bump

theorem reportProgress_steps (s : SegmentScheduler) (id generation offset : ℕ) :
    Relation.ReflTransGen Ledger.Step s.ledger
      (s.reportProgress id generation offset).2.ledger := by
  rcases s.reportProgress_ledger id generation offset with h | ⟨lease, hget, -, hlt, h⟩
  · rw [h]
  · rw [h]
    exact .single (.advance hget (by omega) (min_le_right _ _))

end SegmentScheduler

end KDown
