/-
KDown/Scheduler.lean

The segment scheduler (scheduler/core.rs and scheduler/lease.rs).

A job's bytes `[0, total)` are split between a completed set, a pending set
and the leases handed to workers.  Workers acquire leases carved from the
first pending range, report how far they got, and complete, fail, release or
split them; callbacks carry `(lease id, generation)` and stale ones are
rejected.

Every operation is a function of the state and, where the source reads the
clock, of the instant `now` in nanoseconds.  Counters (lease ids and
generations) are natural numbers.  Byte counts are below `2 ^ 64`, so the
saturating operations on an offset that is at most `total` are written
exactly; only the products of the sizing policy can really saturate.

A policy carries the two facts its constructors establish (`1 ≤ min ≤ max`)
as fields: `clamp` panics without them.
-/
import KDown.IntervalSet

namespace KDown

/-! ### Sizing policy -/

/-- `u64::saturating_mul`. -/
def saturatingMul (a b : ℕ) : ℕ := min (a * b) u64Max

/-- `u64::clamp`. -/
def clamp (x lo hi : ℕ) : ℕ := if x < lo then lo else if hi < x then hi else x

/-- How initial lease sizes are chosen. -/
inductive TargetSelector
  /-- No target: carve up to the maximum. -/
  | none
  /-- Honor the configured initial size. -/
  | explicit (size : ℕ)
  /-- Size from the bytes that remain at initialization. -/
  | automatic (initialWorkers oversubscription : ℕ)
  /-- Size from the observed goodput. -/
  | duration (durationMs seedSize : ℕ)
  deriving DecidableEq, Repr

/-- Scheduler shaping parameters. -/
structure SchedulerPolicy where
  minSegmentSize : ℕ
  maxSegmentSize : ℕ
  target : TargetSelector
  /-- Minimum tail worth splitting. -/
  splitThreshold : ℕ
  /-- When nonzero, each carve leaves work for about this many leases. -/
  readyWorkDivisor : ℕ
  min_pos : 1 ≤ minSegmentSize
  min_le_max : minSegmentSize ≤ maxSegmentSize

namespace SchedulerPolicy

/-- Legacy constructor: no target, the 256 KiB split threshold. -/
def new (minSegmentSize maxSegmentSize : ℕ) : SchedulerPolicy where
  minSegmentSize := max minSegmentSize 1
  maxSegmentSize := max maxSegmentSize (max minSegmentSize 1)
  target := .none
  splitThreshold := 256 * 1024
  readyWorkDivisor := 0
  min_pos := le_max_right _ _
  min_le_max := le_max_right _ _

/-- Full policy: target plus split threshold, clamped safely. -/
def withTarget (minSegmentSize maxSegmentSize : ℕ) (target : TargetSelector)
    (splitThreshold : ℕ) : SchedulerPolicy :=
  { new minSegmentSize maxSegmentSize with
    target := target
    splitThreshold := max splitThreshold 1 }

/-- The target for a selector against the bytes that remain. -/
def resolveTarget (minSegmentSize maxSegmentSize : ℕ) (target : TargetSelector)
    (pendingBytes : ℕ) : Option ℕ :=
  match target with
  | .none => none
  | .explicit size => some (clamp size minSegmentSize maxSegmentSize)
  | .automatic initialWorkers oversubscription =>
      -- ceiling of the remaining bytes over all workers' shares
      let workers := max (saturatingMul (max initialWorkers 1) (max oversubscription 1)) 1
      some (clamp ((max pendingBytes 1 + workers - 1) / workers) minSegmentSize maxSegmentSize)
  | .duration _ seedSize => some (clamp seedSize minSegmentSize maxSegmentSize)

/-- Reserve roughly `divisor - 1` minimum-sized leases behind a carve while
the gap permits. -/
def applyReadyWorkCap (p : SchedulerPolicy) (want gapLen : ℕ) : ℕ :=
  if p.readyWorkDivisor = 0 then want
  else
    let minInGap := max (min p.minSegmentSize gapLen) 1
    let reserve := saturatingMul (p.readyWorkDivisor - 1) minInGap
    if reserve < gapLen then min want (max (gapLen - reserve) minInGap) else want

/-- The lease length for the next carve from a gap. -/
def targetLen (p : SchedulerPolicy) (gapLen : ℕ) (resolvedTarget : Option ℕ) : ℕ :=
  let raw := resolvedTarget.getD p.maxSegmentSize
  let want := max
    (min (clamp raw (min p.minSegmentSize gapLen) p.maxSegmentSize) gapLen)
    (min p.minSegmentSize gapLen)
  p.applyReadyWorkCap want gapLen

end SchedulerPolicy

/-- EWMA state of the duration-informed selector. -/
structure DurationTarget where
  durationMs : ℕ
  seedSize : ℕ
  /-- Smoothed goodput in bytes per millisecond. -/
  ewmaBytesPerMs : Float
  samples : ℕ
  /-- The last allocated size, for the bounded step change. -/
  lastAlloc : ℕ

namespace DurationTarget

/-- Samples after which the estimate drives allocations. -/
def stableSamples : ℕ := 3

/-- Weight of the newest sample. -/
def ewmaWeight : Float := 0.25

/-- A 64-bit count as a double. -/
def toF64 (n : ℕ) : Float := n.toUInt64.toFloat

/-- No sample was taken: the seed size is the next length. -/
def new (durationMs seedSize : ℕ) : DurationTarget where
  durationMs := max durationMs 1
  seedSize := seedSize
  ewmaBytesPerMs := 0.0
  samples := 0
  lastAlloc := seedSize

/-- Fold one settled lease; degenerate samples are skipped. -/
def observe (d : DurationTarget) (bytes heldMs : ℕ) : DurationTarget :=
  if bytes = 0 ∨ heldMs = 0 then d
  else
    let sample := toF64 bytes / toF64 heldMs
    { d with
      ewmaBytesPerMs :=
        if d.samples = 0 then sample
        else d.ewmaBytesPerMs * (1.0 - ewmaWeight) + sample * ewmaWeight
      samples := d.samples + 1 }

/-- The minimum carve inside a gap. -/
def minInGap (minSize gapLen : ℕ) : ℕ := max (min minSize gapLen) 1

/-- The next allocation size, clamped to `[min, max]` and to a doubling or
halving of the previous allocation. -/
def nextSize (d : DurationTarget) (minSize maxSize gapLen : ℕ) : ℕ :=
  -- too few samples: the seed decides
  if d.samples < stableSamples then
    max (min (clamp d.seedSize (min minSize gapLen) maxSize) gapLen) 1
  else
    let raw := d.ewmaBytesPerMs * toF64 d.durationMs
    let stepped :=
      -- at most twice and at least half of the last allocation
      if toF64 d.lastAlloc * 2.0 < raw then d.lastAlloc * 2 % 2 ^ 64
      else if raw < toF64 d.lastAlloc / 2.0 then max (d.lastAlloc / 2) 1
      else (if raw < 1.0 then 1.0 else raw).toUInt64.toNat
    max (min (clamp stepped (min minSize gapLen) maxSize) gapLen) (minInGap minSize gapLen)

end DurationTarget

/-! ### State -/

/-- A lease over one segment; `generation` invalidates stale callbacks. -/
structure SegmentLease where
  id : ℕ
  generation : ℕ
  start : ℕ
  /-- Inclusive end. -/
  stop : ℕ
  nextOffset : ℕ
  deriving DecidableEq, Repr

namespace SegmentLease

/-- What is left of the lease. -/
def remaining (l : SegmentLease) : ℕ :=
  if l.stop < l.nextOffset then 0 else l.stop - l.nextOffset + 1

/-- The byte lies in the lease's interval. -/
def Spans (l : SegmentLease) (b : ℕ) : Prop := l.start ≤ b ∧ b ≤ l.stop

/-- `start ≤ next_offset ≤ end + 1`, over a non-empty interval. -/
structure InBounds (l : SegmentLease) : Prop where
  start_le_next : l.start ≤ l.nextOffset
  next_le : l.nextOffset ≤ l.stop + 1
  start_le_stop : l.start ≤ l.stop

end SegmentLease

/-- One worker's published progress record. -/
structure LeaseRecord where
  leaseId : ℕ
  generation : ℕ
  leaseStart : ℕ
  /-- Exclusive offset acknowledged by the output path. -/
  writtenThrough : ℕ
  /-- Exclusive receipt high-watermark. -/
  receivedThrough : ℕ
  deriving DecidableEq, Repr

/-- The byte-scheduling core. -/
structure SegmentScheduler where
  totalSize : ℕ
  pending : IntervalSet
  active : SortedMap ℕ SegmentLease
  completed : IntervalSet
  nextLease : ℕ
  generation : ℕ
  policy : SchedulerPolicy
  resolvedTarget : Option ℕ
  durationTarget : Option DurationTarget
  /-- When each active lease was acquired or last resized. -/
  acquiredAt : SortedMap ℕ ℕ

namespace SegmentScheduler

/-! ### Operations -/

/-- Out-of-domain completed ranges are ignored, partial ones clamped. -/
def clampCompleted (totalSize : ℕ) (ranges : List ByteRange) : IntervalSet :=
  ranges.foldl
    (fun set r => if totalSize ≤ r.1 then set else set.insert r.1 (min r.2 (totalSize - 1)))
    .new

/-- A scheduler over `[0, total)` with some ranges already finished. -/
def initialized (totalSize : ℕ) (completedRanges : List ByteRange) (policy : SchedulerPolicy) :
    SegmentScheduler :=
  let completed := clampCompleted totalSize completedRanges
  let pending :=
    if totalSize = 0 then .new else .fromRanges (completed.complementWithin totalSize)
  { totalSize := totalSize
    pending := pending
    active := .empty
    completed := completed
    nextLease := 1
    generation := 1
    policy := policy
    resolvedTarget := SchedulerPolicy.resolveTarget policy.minSegmentSize policy.maxSegmentSize
      policy.target pending.len
    durationTarget :=
      match policy.target with
      | .duration durationMs seedSize => some (.new durationMs seedSize)
      | _ => none
    acquiredAt := .empty }

/-- The target lease length for the next carve. -/
def targetLenForGap (s : SegmentScheduler) (gapLen : ℕ) : ℕ :=
  let want :=
    match s.durationTarget with
    | some d => d.nextSize s.policy.minSegmentSize s.policy.maxSegmentSize gapLen
    | none => s.policy.targetLen gapLen s.resolvedTarget
  s.policy.applyReadyWorkCap want gapLen

/-- Carve a slice from the first pending range; `none` when no work remains. -/
def acquire (s : SegmentScheduler) (now : ℕ) : Option (SegmentLease × SegmentScheduler) :=
  match s.pending.ranges.head? with
  | none => none
  | some gap =>
      let want := s.targetLenForGap (gap.2 - gap.1 + 1)
      let stop := min (gap.1 + want - 1) gap.2
      let lease : SegmentLease :=
        { id := s.nextLease, generation := s.generation, start := gap.1, stop := stop,
          nextOffset := gap.1 }
      some (lease,
        { s with
          nextLease := s.nextLease + 1
          pending := s.pending.subtract gap.1 stop
          active := s.active.insert s.nextLease lease
          acquiredAt := s.acquiredAt.insert s.nextLease now })

/-- Advance a lease's `next_offset`, never backward and never past its end. -/
def reportProgress (s : SegmentScheduler) (leaseId generation durableThroughOffset : ℕ) :
    Bool × SegmentScheduler :=
  match s.active.get? leaseId with
  | none => (false, s)
  | some lease =>
      if lease.generation ≠ generation then (false, s)
      -- an old report is accepted and changes nothing
      else if durableThroughOffset ≤ lease.nextOffset then (true, s)
      else
        (true, { s with
          active := s.active.insert leaseId
            { lease with nextOffset := min durableThroughOffset (lease.stop + 1) } })

/-- The next offset of an active lease. -/
def leaseNextOffset (s : SegmentScheduler) (leaseId : ℕ) : Option ℕ :=
  (s.active.get? leaseId).map SegmentLease.nextOffset

/-- Reconcile one worker cell; the number is the accepted delta. -/
def absorbCell (s : SegmentScheduler) (cell : Option LeaseRecord) : ℕ × SegmentScheduler :=
  match cell with
  | none => (0, s)
  | some record =>
      match s.leaseNextOffset record.leaseId with
      | none => (0, s)
      | some before =>
          let r := s.reportProgress record.leaseId record.generation record.writtenThrough
          if r.1 then (((r.2.leaseNextOffset record.leaseId).getD before) - before, r.2)
          else (0, r.2)

/-- Reconcile the worker cells in order. -/
def absorbWorkerProgress (s : SegmentScheduler) :
    List (Option LeaseRecord) → List ℕ × SegmentScheduler
  | [] => ([], s)
  | cell :: cells =>
      let r := s.absorbCell cell
      let rest := r.2.absorbWorkerProgress cells
      (r.1 :: rest.1, rest.2)

/-- Fold one settled lease into the duration sampler.  A lease without an
acquisition time counts as held for one millisecond. -/
def observeDurationSample (s : SegmentScheduler) (lease : SegmentLease)
    (settledBytes now : ℕ) : SegmentScheduler :=
  match s.durationTarget with
  | none => s
  | some d =>
      let heldMs := ((s.acquiredAt.get? lease.id).map fun at_ => (now - at_) / 1000000).getD 1
      { s with
        durationTarget := some { d.observe settledBytes heldMs with
          lastAlloc := max settledBytes 1 } }

/-- Mark a lease's full range complete. -/
def complete (s : SegmentScheduler) (leaseId generation now : ℕ) : Bool × SegmentScheduler :=
  match s.active.get? leaseId with
  | none => (false, s)
  | some lease =>
      if lease.generation ≠ generation then
        -- the source removes the lease first and puts a stale one back
        (false, { s with active := (s.active.erase leaseId).insert leaseId lease })
      else
        let s := { s with active := s.active.erase leaseId }
        let s := s.observeDurationSample lease (lease.stop - lease.start + 1) now
        -- the whole interval is credited, whatever was reported before
        (true, { s with
          acquiredAt := s.acquiredAt.erase leaseId
          completed := s.completed.insert lease.start lease.stop })

/-- Return a removed lease's unfinished tail to pending and credit its
acknowledged prefix (the shared ending of fail, release and bump). -/
def giveBack (s : SegmentScheduler) (lease : SegmentLease) : SegmentScheduler :=
  { s with
    pending :=
      if lease.nextOffset ≤ lease.stop then s.pending.insert lease.nextOffset lease.stop
      else s.pending
    completed :=
      if lease.start < lease.nextOffset then s.completed.insert lease.start (lease.nextOffset - 1)
      else s.completed }

/-- Fail a lease: requeue only the unfinished tail. -/
def fail (s : SegmentScheduler) (leaseId generation now : ℕ) : Bool × SegmentScheduler :=
  match s.active.get? leaseId with
  | none => (false, s)
  | some lease =>
      if lease.generation ≠ generation then
        (false, { s with active := (s.active.erase leaseId).insert leaseId lease })
      else
        let s := { s with active := s.active.erase leaseId }
        let s := s.observeDurationSample lease (lease.nextOffset - lease.start) now
        let s := { s with acquiredAt := s.acquiredAt.erase leaseId }
        (true, s.giveBack lease)

/-- Give back a lease's remainder.  Unlike `fail`, the acquisition time is
dropped before the generation is compared. -/
def release (s : SegmentScheduler) (leaseId generation : ℕ) : Bool × SegmentScheduler :=
  match s.active.get? leaseId with
  | none => (false, s)
  | some lease =>
      let s := { s with
        active := s.active.erase leaseId
        acquiredAt := s.acquiredAt.erase leaseId }
      if lease.generation ≠ generation then
        (false, { s with active := s.active.insert leaseId lease })
      else (true, s.giveBack lease)

/-- Take the unconsumed tail of an active lease for an idle worker. -/
def splitTail (s : SegmentScheduler) (leaseId generation minTail receivedThrough now : ℕ) :
    Option (SegmentLease × SegmentScheduler) :=
  match s.active.get? leaseId with
  | none => none
  | some lease =>
      if lease.generation ≠ generation then none
      else
        -- bytes that were received stay with the first owner
        let tailStart := max lease.nextOffset receivedThrough
        let tailLen := lease.stop - tailStart + 1
        if tailLen ≤ max minTail 1 then none
        else
          let take := clamp (tailLen / 2) 1 (tailLen - 1)
          let newStart := lease.stop - take + 1
          let original := { lease with stop := newStart - 1 }
          let split : SegmentLease :=
            { id := s.nextLease, generation := s.generation, start := newStart,
              stop := lease.stop, nextOffset := newStart }
          let acquiredAt :=
            -- the shortened lease counts as a new allocation
            if s.acquiredAt.contains leaseId then s.acquiredAt.insert leaseId now
            else s.acquiredAt
          some (split,
            { s with
              active := (s.active.insert leaseId original).insert s.nextLease split
              durationTarget := s.durationTarget.map fun d =>
                { d with lastAlloc := original.stop - original.start + 1 }
              nextLease := s.nextLease + 1
              acquiredAt := acquiredAt.insert s.nextLease now })

/-- Remove one lease and give it back. -/
def reclaim (s : SegmentScheduler) (leaseId : ℕ) : SegmentScheduler :=
  match s.active.get? leaseId with
  | none => s
  | some lease => { s with active := s.active.erase leaseId }.giveBack lease

/-- Advance the generation: every active lease is invalidated and given back.
Acquisition times stay. -/
def bumpGeneration (s : SegmentScheduler) : SegmentScheduler :=
  s.active.keys.foldl reclaim { s with generation := s.generation + 1 }

/-- Refresh the ready-work divisor. -/
def setReadyWorkDivisor (s : SegmentScheduler) (divisor : ℕ) : SegmentScheduler :=
  { s with policy := { s.policy with readyWorkDivisor := divisor } }

/-! ### Queries -/

/-- The live (possibly split-shrunk) inclusive end of an active lease. -/
def leaseEnd (s : SegmentScheduler) (leaseId generation : ℕ) : Option ℕ :=
  match s.active.get? leaseId with
  | none => none
  | some lease => if lease.generation ≠ generation then none else some lease.stop

/-- A lease is out. -/
def hasActive (s : SegmentScheduler) : Bool := !s.active.entries.isEmpty

/-- Nothing is pending and no lease is out. -/
def isFinished (s : SegmentScheduler) : Bool :=
  s.pending.isEmpty && s.active.entries.isEmpty

/-- The largest active leases whose tail exceeds `min_tail`.  The source returns
one of them: among equals the iteration order of a hash map decides. -/
def largestSplittable (s : SegmentScheduler) (minTail : ℕ) : List SegmentLease :=
  let splittable := s.active.values.filter fun l => max minTail 1 < l.remaining
  splittable.filter fun b => splittable.all fun l => l.remaining ≤ b.remaining

/-- Completed ranges plus the acknowledged prefixes of active leases. -/
def settledRanges (s : SegmentScheduler) : List ByteRange :=
  (s.active.values.foldl
    (fun set l =>
      if l.start < l.nextOffset then set.insert l.start (l.nextOffset - 1) else set)
    s.completed).ranges

/-- Whether every byte of the domain is complete. -/
def isComplete (s : SegmentScheduler) : Bool :=
  s.totalSize = 0 || s.completed.len = s.totalSize

end SegmentScheduler

end KDown
