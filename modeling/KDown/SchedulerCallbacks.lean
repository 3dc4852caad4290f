/-
KDown/SchedulerCallbacks.lean

Refused calls of the segment scheduler and its duration clocks
(scheduler/core.rs).

A callback that names an unknown lease, an old generation or a tail too short
to split is refused, and a refused call should leave the whole scheduler as it
is.  Beside the sets of bytes that includes `acquired_at`, the instant each
active lease was acquired, which the duration sampler divides by.

Two operations treat that map differently from the others: `release` drops
the instant before it compares the generation, and `bump_generation` removes
the leases but not their instants.  Everywhere else the map follows the active
leases.

* `refused_calls_unchanged`: along every run that avoids these two cases the
  clocks are exactly those of the active leases, and a call keeps that and is
  a no-op when refused exactly if it avoids them too.
-/
import KDown.Runs
import KDown.SchedulerCoverage

namespace KDown

namespace SegmentScheduler

/-! ### Refusals -/

/-- The record of a worker's cell is skipped. -/
def refusesCell (s : SegmentScheduler) : Option LeaseRecord → Bool
  | none => true
  | some r => !(s.reportProgress r.leaseId r.generation r.writtenThrough).1

/-- The call is refused. -/
def refuses (s : SegmentScheduler) : SchedulerOp → Bool
  | .reportProgress id generation offset => !(s.reportProgress id generation offset).1
  | .absorbWorkerProgress cells => cells.all s.refusesCell
  | .complete id generation now => !(s.complete id generation now).1
  | .fail id generation now => !(s.fail id generation now).1
  | .release id generation => !(s.release id generation).1
  | .splitTail id generation minTail received now =>
      (s.splitTail id generation minTail received now).isNone
  | _ => false

/-- The clocks are those of the active leases. -/
def ClocksExact (s : SegmentScheduler) : Prop :=
  ∀ id, id ∈ s.acquiredAt.keys ↔ id ∈ s.active.keys

/-- No active lease is released under another generation, and the generation
changes only while no lease is active. -/
def Careful (s : SegmentScheduler) : SchedulerOp → Prop
  | .release id generation => ∀ lease, s.active.get? id = some lease → lease.generation = generation
  | .bumpGeneration => ∀ id, s.active.get? id = none
  | _ => True

/-- What every call should do: keep the clocks exact, and keep everything when
it is refused. -/
structure CallLaw (s : SegmentScheduler) (op : SchedulerOp) : Prop where
  unchanged : s.refuses op = true → (s.apply op).1 = s
  clocks : (s.apply op).1.ClocksExact

/-- One call. -/
def callStep (s : SegmentScheduler) (op : SchedulerOp) : Option SegmentScheduler :=
  some (s.apply op).1

end SegmentScheduler

namespace SortedMap

theorem mem_keys {κ υ : Type*} [LinearOrder κ] {m : SortedMap κ υ} {k : κ} :
    k ∈ m.keys ↔ (m.get? k).isSome = true := by
  rw [keys, List.mem_map, Option.isSome_iff_exists]
  constructor
  · rintro ⟨⟨k', v⟩, h, rfl⟩
    exact ⟨v, mem_entries.mp h⟩
  · rintro ⟨v, h⟩
    exact ⟨(k, v), mem_entries.mpr h, rfl⟩

end SortedMap

namespace SegmentScheduler

variable {s : SegmentScheduler}

/-- Looking up a clock and looking up a lease succeed together. -/
def SameKeys (acquiredAt : SortedMap ℕ ℕ) (active : SortedMap ℕ SegmentLease) : Prop :=
  ∀ id, (acquiredAt.get? id).isSome = (active.get? id).isSome

/-- The clocks are exact if they have the keys of the active leases. -/
theorem clocksExact_iff : s.ClocksExact ↔ SameKeys s.acquiredAt s.active := by
  apply forall_congr'
  intro id
  rw [SortedMap.mem_keys, SortedMap.mem_keys]
  exact Bool.eq_iff_iff.symm

section SameKeys

variable {acquiredAt : SortedMap ℕ ℕ} {active : SortedMap ℕ SegmentLease}
  (h : SameKeys acquiredAt active)

include h

theorem SameKeys.insert (id now : ℕ) (lease : SegmentLease) :
    SameKeys (acquiredAt.insert id now) (active.insert id lease) := by
  intro a
  rw [SortedMap.get?_insert, SortedMap.get?_insert]
  split_ifs
  · rfl
  · exact h a

theorem SameKeys.erase (id : ℕ) : SameKeys (acquiredAt.erase id) (active.erase id) := by
  intro a
  rw [SortedMap.get?_erase, SortedMap.get?_erase]
  split_ifs
  · rfl
  · exact h a

/-- The lease under a key is replaced. -/
theorem SameKeys.replace {id : ℕ} {old : SegmentLease} (hget : active.get? id = some old)
    (lease : SegmentLease) : SameKeys acquiredAt (active.insert id lease) := by
  intro a
  rw [SortedMap.get?_insert]
  split_ifs with ha
  · rw [ha, h id, hget]
    rfl
  · exact h a

end SameKeys

/-! ### The clocks after each call -/

section Calls

variable (h : SameKeys s.acquiredAt s.active)

include h

theorem sameKeys_acquire {now : ℕ} {lease : SegmentLease} {s' : SegmentScheduler}
    (he : s.acquire now = some (lease, s')) : SameKeys s'.acquiredAt s'.active := by
  unfold acquire at he
  rcases e : s.pending.ranges.head? with - | gap <;> rw [e] at he
  · cases he
  · cases he
    exact h.insert _ _ _

theorem sameKeys_reportProgress (id generation offset : ℕ) :
    SameKeys (s.reportProgress id generation offset).2.acquiredAt
      (s.reportProgress id generation offset).2.active := by
  unfold reportProgress
  rcases e : s.active.get? id with - | lease
  · exact h
  · simp only
    split_ifs
    · exact h
    · exact h
    · exact h.replace e _

theorem sameKeys_absorbCell (cell : Option LeaseRecord) :
    SameKeys (s.absorbCell cell).2.acquiredAt (s.absorbCell cell).2.active := by
  unfold absorbCell
  rcases cell with - | record
  · exact h
  · simp only
    rcases s.leaseNextOffset record.leaseId with - | before
    · exact h
    · simp only
      split_ifs
      · exact sameKeys_reportProgress h _ _ _
      · exact sameKeys_reportProgress h _ _ _

omit h in
theorem sameKeys_absorbWorkerProgress (cells : List (Option LeaseRecord)) {s : SegmentScheduler}
    (h : SameKeys s.acquiredAt s.active) :
    SameKeys (s.absorbWorkerProgress cells).2.acquiredAt
      (s.absorbWorkerProgress cells).2.active := by
  induction cells generalizing s with
  | nil => exact h
  | cons cell cells ih => exact ih (sameKeys_absorbCell h cell)

omit h in
theorem acquiredAt_observe (lease : SegmentLease) (bytes now : ℕ) :
    (s.observeDurationSample lease bytes now).acquiredAt = s.acquiredAt ∧
      (s.observeDurationSample lease bytes now).active = s.active := by
  unfold observeDurationSample
  rcases s.durationTarget with - | d <;> exact ⟨rfl, rfl⟩

theorem sameKeys_complete (id generation now : ℕ) :
    SameKeys (s.complete id generation now).2.acquiredAt
      (s.complete id generation now).2.active := by
  unfold complete
  rcases e : s.active.get? id with - | lease
  · exact h
  · simp only
    split_ifs
    · rw [SortedMap.insert_erase_self e]
      exact h
    · obtain ⟨hat, hact⟩ := acquiredAt_observe (s := { s with active := s.active.erase id }) lease
        (lease.stop - lease.start + 1) now
      simp only [hat, hact]
      exact h.erase id

theorem sameKeys_fail (id generation now : ℕ) :
    SameKeys (s.fail id generation now).2.acquiredAt (s.fail id generation now).2.active := by
  unfold fail
  rcases e : s.active.get? id with - | lease
  · exact h
  · simp only
    split_ifs
    · rw [SortedMap.insert_erase_self e]
      exact h
    · obtain ⟨hat, hact⟩ := acquiredAt_observe (s := { s with active := s.active.erase id }) lease
        (lease.nextOffset - lease.start) now
      simp only [giveBack, hat, hact]
      exact h.erase id

/-- A release of an active lease keeps the clocks exact only under the lease's
own generation. -/
theorem sameKeys_release (id generation : ℕ) :
    SameKeys (s.release id generation).2.acquiredAt (s.release id generation).2.active ↔
      ∀ lease, s.active.get? id = some lease → lease.generation = generation := by
  unfold release
  rcases e : s.active.get? id with - | lease
  · exact iff_of_true h fun _ hno => by cases hno
  · simp only
    split_ifs with hgen
    · -- the clock is gone, the lease is back
      refine iff_of_false (fun hsame => ?_) fun hall => hgen (hall lease rfl)
      have hid := hsame id
      simp only [SortedMap.get?_erase_self, SortedMap.get?_insert_self] at hid
      cases hid
    · refine iff_of_true (h.erase id) fun l hl => ?_
      rw [← Option.some.inj hl]
      exact not_not.mp hgen

theorem sameKeys_splitTail {id generation minTail received now : ℕ} {lease : SegmentLease}
    {s' : SegmentScheduler}
    (he : s.splitTail id generation minTail received now = some (lease, s')) :
    SameKeys s'.acquiredAt s'.active := by
  unfold splitTail at he
  rcases e : s.active.get? id with - | old <;> rw [e] at he
  · cases he
  · simp only at he
    split_ifs at he with hgen htail hclock
    · cases he
      exact ((h.insert id now _)).insert _ _ _
    · cases he
      exact (h.replace e _).insert _ _ _

end Calls

theorem acquiredAt_reclaim (id : ℕ) : (s.reclaim id).acquiredAt = s.acquiredAt := by
  unfold reclaim
  rcases s.active.get? id with - | lease <;> rfl

theorem acquiredAt_bumpGeneration : s.bumpGeneration.acquiredAt = s.acquiredAt := by
  have hfold : ∀ (ids : List ℕ) (s : SegmentScheduler),
      (ids.foldl reclaim s).acquiredAt = s.acquiredAt := by
    intro ids
    induction ids with
    | nil => exact fun _ => rfl
    | cons id ids ih => exact fun s => (ih _).trans (acquiredAt_reclaim id)
  exact hfold _ _

/-- A new generation keeps the clocks exact only when there was no lease. -/
theorem sameKeys_bumpGeneration (h : SameKeys s.acquiredAt s.active) :
    SameKeys s.bumpGeneration.acquiredAt s.bumpGeneration.active ↔
      ∀ id, s.active.get? id = none := by
  rw [acquiredAt_bumpGeneration]
  constructor
  · intro hsame id
    have hid := (hsame id).symm.trans (h id)
    rw [get?_bumpGeneration] at hid
    exact Option.isNone_iff_eq_none.mp (by simpa using hid.symm)
  · intro hnone id
    rw [h id, hnone id, get?_bumpGeneration]

/-! ### Refused calls -/

theorem reportProgress_of_refused {id generation offset : ℕ}
    (h : (s.reportProgress id generation offset).1 = false) :
    (s.reportProgress id generation offset).2 = s := by
  unfold reportProgress at h ⊢
  rcases e : s.active.get? id with - | lease
  · rfl
  · rw [e] at h
    simp only at h ⊢
    split_ifs at h ⊢
    rfl

theorem absorbCell_of_refused {cell : Option LeaseRecord} (h : s.refusesCell cell = true) :
    (s.absorbCell cell).2 = s := by
  rcases cell with - | record
  · rfl
  · have hno : (s.reportProgress record.leaseId record.generation record.writtenThrough).1
        = false := by
      simpa [refusesCell] using h
    unfold absorbCell
    simp only
    rcases s.leaseNextOffset record.leaseId with - | before
    · rfl
    · simp only [hno, Bool.false_eq_true, if_false]
      exact reportProgress_of_refused hno

theorem absorbWorkerProgress_of_refused {cells : List (Option LeaseRecord)}
    (h : cells.all s.refusesCell = true) : (s.absorbWorkerProgress cells).2 = s := by
  -- each skipped cell leaves the scheduler the next one sees
  induction cells with
  | nil => rfl
  | cons cell cells ih =>
    rw [List.all_cons, Bool.and_eq_true] at h
    show ((s.absorbCell cell).2.absorbWorkerProgress cells).2 = s
    rw [absorbCell_of_refused h.1]
    exact ih h.2

/-- A stale completion puts the lease back where it was. -/
theorem complete_of_refused {id generation now : ℕ}
    (h : (s.complete id generation now).1 = false) : (s.complete id generation now).2 = s := by
  unfold complete at h ⊢
  rcases e : s.active.get? id with - | lease
  · rfl
  · rw [e] at h
    simp only at h ⊢
    split_ifs at h ⊢
    rw [SortedMap.insert_erase_self e]

theorem fail_of_refused {id generation now : ℕ}
    (h : (s.fail id generation now).1 = false) : (s.fail id generation now).2 = s := by
  unfold fail at h ⊢
  rcases e : s.active.get? id with - | lease
  · rfl
  · rw [e] at h
    simp only at h ⊢
    split_ifs at h ⊢
    rw [SortedMap.insert_erase_self e]

/-- A release under the right generation is refused only for an unknown
lease. -/
theorem release_of_refused {id generation : ℕ}
    (hcare : ∀ lease, s.active.get? id = some lease → lease.generation = generation)
    (h : (s.release id generation).1 = false) : (s.release id generation).2 = s := by
  unfold release at h ⊢
  rcases e : s.active.get? id with - | lease
  · rfl
  · rw [e] at h
    simp only at h ⊢
    rw [if_neg (not_not.mpr (hcare lease e))] at h
    cases h

theorem apply_of_refused {op : SchedulerOp} (hcare : s.Careful op) (h : s.refuses op = true) :
    (s.apply op).1 = s := by
  cases op with
  | acquire now => cases h
  | reportProgress id generation offset =>
    exact reportProgress_of_refused (by simpa [refuses] using h)
  | absorbWorkerProgress cells => exact absorbWorkerProgress_of_refused h
  | complete id generation now => exact complete_of_refused (by simpa [refuses] using h)
  | fail id generation now => exact fail_of_refused (by simpa [refuses] using h)
  | release id generation => exact release_of_refused hcare (by simpa [refuses] using h)
  | splitTail id generation minTail received now =>
    have hnone : s.splitTail id generation minTail received now = none := by
      simpa [refuses] using h
    simp only [apply, hnone]
  | bumpGeneration => cases h
  | setReadyWorkDivisor divisor => cases h

/-- With exact clocks, a call keeps them exact just when it is a careful
one. -/
theorem clocksExact_apply (h : s.ClocksExact) (op : SchedulerOp) :
    (s.apply op).1.ClocksExact ↔ s.Careful op := by
  rw [clocksExact_iff] at h ⊢
  cases op with
  | acquire now =>
    refine iff_of_true ?_ trivial
    rcases e : s.acquire now with - | ⟨lease, s'⟩
    · simpa only [apply, e] using h
    · simpa only [apply, e] using sameKeys_acquire h e
  | reportProgress id generation offset =>
    exact iff_of_true (sameKeys_reportProgress h id generation offset) trivial
  | absorbWorkerProgress cells =>
    exact iff_of_true (sameKeys_absorbWorkerProgress cells h) trivial
  | complete id generation now =>
    exact iff_of_true (sameKeys_complete h id generation now) trivial
  | fail id generation now => exact iff_of_true (sameKeys_fail h id generation now) trivial
  | release id generation => exact sameKeys_release h id generation
  | splitTail id generation minTail received now =>
    refine iff_of_true ?_ trivial
    rcases e : s.splitTail id generation minTail received now with - | ⟨lease, s'⟩
    · simpa only [apply, e] using h
    · simpa only [apply, e] using sameKeys_splitTail h e
  | bumpGeneration => exact sameKeys_bumpGeneration h
  | setReadyWorkDivisor divisor => exact iff_of_true h trivial

/-! ### Runs -/

theorem clocksExact_initialized (total : ℕ) (ranges : List ByteRange) (policy : SchedulerPolicy) :
    (initialized total ranges policy).ClocksExact :=
  fun _ => Iff.rfl

/-- **Refused callbacks change nothing.**  Along every run of careful calls the
clocks are those of the active leases, and there a call follows the law exactly
when it is careful. -/
theorem refused_calls_unchanged {total : ℕ} {ranges : List ByteRange} {policy : SchedulerPolicy}
    (hs : Reach callStep Careful (· = initialized total ranges policy) s) :
    s.ClocksExact ∧ ∀ op, s.CallLaw op ↔ s.Careful op := by
  have hclocks : s.ClocksExact := by
    refine hs.invariant ?_ ?_
    · rintro s₀ rfl
      exact clocksExact_initialized total ranges policy
    · intro s op s' hexact hcare hstep
      rw [← Option.some.inj hstep]
      exact (clocksExact_apply hexact op).mpr hcare
  refine ⟨hclocks, fun op => ⟨fun hlaw => ?_, fun hcare => ⟨?_, ?_⟩⟩⟩
  · exact (clocksExact_apply hclocks op).mp hlaw.clocks
  · exact apply_of_refused hcare
  · exact (clocksExact_apply hclocks op).mpr hcare

/-- One lease of a small file is out. -/
def oneLeaseOut : SegmentScheduler :=
  ((initialized 100 [] (.new 10 50)).apply (.acquire 0)).1

/-- The law holds of a callback for the lease that is out. -/
theorem refused_calls_unchanged_completed :
    oneLeaseOut.CallLaw (.complete 1 2 5) := by
  have hcare : (initialized 100 [] (.new 10 50)).Careful (.acquire 0) := trivial
  have hreach : Reach callStep Careful (· = initialized 100 [] (.new 10 50)) oneLeaseOut :=
    .next (.start rfl) hcare rfl
  exact ((refused_calls_unchanged hreach).2 (.complete 1 2 5)).mpr trivial

/-- A release under a stale generation is refused and still stops the clock. -/
theorem stale_release_drops_clock :
    ¬ ∀ (total : ℕ) (ranges : List ByteRange) (policy : SchedulerPolicy) (s : SegmentScheduler),
      Reach callStep (fun _ _ => True) (· = initialized total ranges policy) s →
        s.ClocksExact ∧ ∀ op, s.refuses op = true → (s.apply op).1 = s := by
  intro hall
  have hreach : Reach callStep (fun _ _ => True) (· = initialized 100 [] (.new 10 50))
      oneLeaseOut :=
    .next (.start rfl) (e := .acquire 0) trivial rfl
  have hsame := (hall _ _ _ _ hreach).2 (.release 1 2) rfl
  have hclock := congrArg (fun s => s.acquiredAt.keys) hsame
  exact absurd hclock (by decide)

end SegmentScheduler

end KDown
