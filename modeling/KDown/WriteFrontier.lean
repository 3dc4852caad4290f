/-
KDown/WriteFrontier.lean

Per-lease write frontiers (io/write_frontier.rs).

A frontier follows one lease attempt of the pipelined write path: what was
received, what was submitted and is still outstanding, and what was
acknowledged.  The published frontier is the first gap of the acknowledged
set, so it never passes a byte whose write has not succeeded
(`mem_acknowledged_of_lt_through`).

The assertions of the source that a chunk lies in the lease's domain are
preconditions of its callers and are not part of the functions here.
-/
import KDown.IntervalSet

namespace KDown

/-- Outcome of recording one write completion. -/
inductive CompletionStatus
  /-- Successful; the exclusive contiguous acknowledged offset. -/
  | acknowledged (through : ℕ)
  | failed
  /-- The completion belongs to another lease or generation. -/
  | staleGeneration
  deriving DecidableEq

/-- Per-lease, per-generation write frontier over `[start, stop]`. -/
structure LeaseFrontier where
  leaseId : ℕ
  generation : ℕ
  start : ℕ
  stop : ℕ
  /-- Exclusive contiguous receipt watermark. -/
  receivedThrough : ℕ
  /-- Exclusive high-watermark of any received byte. -/
  receivedHighWater : ℕ
  submitted : IntervalSet
  outstanding : IntervalSet
  acknowledged : IntervalSet
  failed : IntervalSet

namespace LeaseFrontier

/-- Nothing was received. -/
def new (leaseId generation start stop : ℕ) : LeaseFrontier where
  leaseId := leaseId
  generation := generation
  start := start
  stop := stop
  receivedThrough := start
  receivedHighWater := start
  submitted := .new
  outstanding := .new
  acknowledged := .new
  failed := .new

/-- Record receipt of `[offset, offset + len)`. -/
def recordReceived (f : LeaseFrontier) (offset len : ℕ) : LeaseFrontier :=
  { f with
    receivedHighWater := max f.receivedHighWater (offset + len)
    receivedThrough := if offset = f.receivedThrough then offset + len else f.receivedThrough }

/-- Record that `[offset, offset + len)` was submitted for a write. -/
def recordSubmission (f : LeaseFrontier) (offset len : ℕ) : LeaseFrontier :=
  { f with
    submitted := f.submitted.insert offset (offset + len - 1)
    outstanding := f.outstanding.insert offset (offset + len - 1) }

/-- First gap of the acknowledged set, or one past the end. -/
def acknowledgedThrough (f : LeaseFrontier) : ℕ :=
  (f.acknowledged.firstGapFrom f.start (f.stop + 1)).getD (f.stop + 1)

/-- Record one write completion. -/
def recordCompletion (f : LeaseFrontier) (leaseId generation offset len : ℕ) (success : Bool) :
    CompletionStatus × LeaseFrontier :=
  if leaseId ≠ f.leaseId ∨ generation ≠ f.generation then (.staleGeneration, f)
  else
    let f := { f with outstanding := f.outstanding.subtract offset (offset + len - 1) }
    if success then
      let f := { f with acknowledged := f.acknowledged.insert offset (offset + len - 1) }
      (.acknowledged f.acknowledgedThrough, f)
    else (.failed, { f with failed := f.failed.insert offset (offset + len - 1) })

/-- A chunk is submitted and not acknowledged. -/
def hasOutstanding (f : LeaseFrontier) : Bool := !f.outstanding.isEmpty

/-- **Everything below the published frontier was acknowledged.** -/
theorem mem_acknowledged_of_lt_through {f : LeaseFrontier} {b : ℕ} (hstart : f.start ≤ b)
    (hb : b < f.acknowledgedThrough) : b ∈ f.acknowledged := by
  unfold acknowledgedThrough at hb
  rcases e : f.acknowledged.firstGapFrom f.start (f.stop + 1) with - | g <;> rw [e] at hb
  · rw [Option.getD_none] at hb
    exact IntervalSet.mem_of_firstGapFrom_none e ⟨hstart, hb.le⟩
  · rw [Option.getD_some] at hb
    exact IntervalSet.mem_of_firstGapFrom e ⟨hstart, hb⟩

/-- The published frontier stops at the end of what was acknowledged. -/
theorem acknowledgedThrough_le {f : LeaseFrontier} {n : ℕ} (hstart : f.start ≤ n)
    (hstop : n ≤ f.stop + 1) (hout : ∀ b ∈ f.acknowledged, b < n) : f.acknowledgedThrough ≤ n := by
  unfold acknowledgedThrough
  cases e : f.acknowledged.firstGapFrom f.start (f.stop + 1) with
  | none =>
    have hend := IntervalSet.mem_of_firstGapFrom_none e ⟨hstart.trans hstop, le_rfl⟩
    exact absurd (hout _ hend) (not_lt.mpr hstop)
  | some g =>
    by_contra hno
    rw [Option.getD_some, not_le] at hno
    exact absurd (hout n (IntervalSet.mem_of_firstGapFrom e ⟨hstart, hno⟩)) (lt_irrefl n)

/-- It reaches the end of an acknowledged prefix. -/
theorem le_acknowledgedThrough {f : LeaseFrontier} {n : ℕ} (hstop : n ≤ f.stop + 1)
    (hin : ∀ b, f.start ≤ b → b < n → b ∈ f.acknowledged) : n ≤ f.acknowledgedThrough := by
  unfold acknowledgedThrough
  cases e : f.acknowledged.firstGapFrom f.start (f.stop + 1) with
  | none => exact hstop
  | some g =>
    obtain ⟨hg, hgap⟩ := IntervalSet.not_mem_firstGapFrom e
    by_contra hno
    rw [Option.getD_some, not_le] at hno
    exact hgap (hin g hg hno)

/-- A completion leaves the identity and the domain of the frontier alone, and
acknowledges at most its own bytes, and those only on success. -/
theorem recordCompletion_spec (f : LeaseFrontier) (leaseId generation offset len : ℕ)
    (success : Bool) :
    let r := f.recordCompletion leaseId generation offset len success
    r.2.leaseId = f.leaseId ∧ r.2.start = f.start ∧
      (∀ b ∈ r.2.acknowledged,
        b ∈ f.acknowledged ∨ success = true ∧ offset ≤ b ∧ b ≤ offset + len - 1) ∧
      ∀ through, r.1 = .acknowledged through → through = r.2.acknowledgedThrough := by
  intro r
  simp only [r, recordCompletion]
  -- stale, successful, failed
  split_ifs with hstale hok
  · exact ⟨rfl, rfl, fun b hb => .inl hb, fun _ h => by cases h⟩
  · refine ⟨rfl, rfl, fun b hb => ?_, fun through h => ?_⟩
    · rcases IntervalSet.mem_insert.mp hb with hb | hb
      · exact .inl hb
      · exact .inr ⟨hok, hb⟩
    · cases h; rfl
  · exact ⟨rfl, rfl, fun b hb => .inl hb, fun _ h => by cases h⟩

end LeaseFrontier

end KDown
