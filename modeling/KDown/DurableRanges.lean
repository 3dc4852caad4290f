/-
KDown/DurableRanges.lean

The durable-range tracker over whole histories (resume/durable_ranges.rs).

The tracker is told which prefix of the file reached the page cache and which
prefix was synced, and answers how far a checkpoint may claim durability.  In
performance mode that is the acknowledged prefix; in durable mode it should be
what a completed sync covers, that is, what was acknowledged before the sync
began.

`TrackedFile` is the tracker beside the history it is judged against: the
highest acknowledged offset, the sync under way, and the latest successful
one with the acknowledgements that came after its start.  Both modes advance on
every acknowledgement, so in durable mode the answer is right exactly as long
as nothing new was acknowledged since that start (`durable_tracker_law`).
-/
import KDown.Sequential

namespace KDown

/-- An fsync of the whole prefix; it goes the way of an acknowledgement. -/
def DurableRangeTracker.fsyncThrough (t : DurableRangeTracker) (through : ℕ) :
    DurableRangeTracker :=
  t.pageCacheAck through

theorem DurableRangeTracker.pageCacheAck_acknowledged (t : DurableRangeTracker) (through : ℕ) :
    (t.pageCacheAck through).acknowledgedThrough = max t.acknowledgedThrough through := by
  unfold pageCacheAck
  split_ifs with h
  · exact (max_eq_right h.le).symm
  · exact (max_eq_left (not_lt.mp h)).symm

theorem DurableRangeTracker.pageCacheAck_mode (t : DurableRangeTracker) (through : ℕ) :
    (t.pageCacheAck through).mode = t.mode := by
  unfold pageCacheAck
  split_ifs <;> rfl

/-- Both modes answer with the acknowledged frontier. -/
theorem DurableRangeTracker.admissibleThrough_eq (t : DurableRangeTracker) :
    t.admissibleThrough = t.acknowledgedThrough := by
  unfold admissibleThrough
  cases t.mode <;> rfl

/-! ### Histories -/

/-- A tracker and what happened to its file. -/
structure TrackedFile where
  tracker : DurableRangeTracker
  /-- The highest acknowledged offset. -/
  acked : ℕ
  /-- The sync under way: what was acknowledged before its start, and the
  acknowledgements since. -/
  syncing : Option (ℕ × List ℕ)
  /-- What was acknowledged before the start of the latest successful sync;
  zero without one. -/
  synced : ℕ
  /-- The acknowledgements since that start. -/
  sinceSync : List ℕ
  deriving DecidableEq, Repr

/-- A call on the tracker, or an end of a sync. -/
inductive TrackerCall
  /-- Writes before the offset reached the page cache. -/
  | pageCacheAck (through : ℕ)
  | syncStart
  | syncEnd (success : Bool)
  deriving DecidableEq, Repr

namespace TrackedFile

/-- A file of which nothing was written. -/
def new (mode : DurabilityMode) : TrackedFile where
  tracker := .new mode
  acked := 0
  syncing := none
  synced := 0
  sinceSync := []

/-- One call, if it is possible. -/
def step (f : TrackedFile) : TrackerCall → Option TrackedFile
  | .pageCacheAck through => some
      { f with
        tracker := f.tracker.pageCacheAck through
        acked := max f.acked through
        syncing := f.syncing.map fun s => (s.1, through :: s.2)
        sinceSync := through :: f.sinceSync }
  | .syncStart =>
      match f.syncing with
      | some _ => none
      | none => some { f with syncing := some (f.acked, []) }
  | .syncEnd success =>
      match f.syncing with
      | none => none
      | some (before, since) =>
          if success then some
            -- the sync reports the prefix that was written when it began
            { f with
              tracker := f.tracker.fsyncThrough before
              syncing := none
              synced := before
              sinceSync := since }
          else some { f with syncing := none }

/-- `top` is the larger of `base` and of everything in the list. -/
def TopOf (top base : ℕ) (l : List ℕ) : Prop :=
  base ≤ top ∧ (∀ n ∈ l, n ≤ top) ∧ (top = base ∨ top ∈ l)

theorem TopOf.cons {top base : ℕ} {l : List ℕ} (h : TopOf top base l) (n : ℕ) :
    TopOf (max top n) base (n :: l) := by
  obtain ⟨hbase, hall, hattained⟩ := h
  refine ⟨hbase.trans (le_max_left ..), fun x hx => ?_, ?_⟩
  · rcases List.mem_cons.mp hx with rfl | hx
    · exact le_max_right ..
    · exact (hall x hx).trans (le_max_left ..)
  · rcases le_total top n with hn | hn
    · rw [max_eq_right hn]
      exact .inr (List.mem_cons_self ..)
    · rw [max_eq_left hn]
      exact hattained.imp_right (List.mem_cons_of_mem _)

/-- What the tracker knows of its history. -/
structure Inv (mode : DurabilityMode) (f : TrackedFile) : Prop where
  mode_eq : f.tracker.mode = mode
  frontier : f.tracker.acknowledgedThrough = f.acked
  top : TopOf f.acked f.synced f.sinceSync
  syncing : ∀ s, f.syncing = some s → TopOf f.acked s.1 s.2

variable {mode : DurabilityMode} {f f' : TrackedFile}

theorem Inv.new : Inv mode (TrackedFile.new mode) where
  mode_eq := rfl
  frontier := rfl
  top := ⟨le_rfl, fun _ h => (by cases h), .inl rfl⟩
  syncing := fun _ h => by cases h

/-- Every call keeps the invariant and moves the frontier forward or not at
all. -/
theorem Inv.step (hf : Inv mode f) {call : TrackerCall} (h : f.step call = some f') :
    Inv mode f' ∧ f.acked ≤ f'.acked := by
  rcases call with through | - | success
  · rw [← Option.some.inj h]
    refine ⟨⟨?_, ?_, hf.top.cons through, ?_⟩, le_max_left ..⟩
    · rw [DurableRangeTracker.pageCacheAck_mode, hf.mode_eq]
    · rw [DurableRangeTracker.pageCacheAck_acknowledged, hf.frontier]
    · intro s hs
      obtain ⟨t, ht, rfl⟩ := Option.map_eq_some_iff.mp hs
      exact (hf.syncing t ht).cons through
  · simp only [TrackedFile.step] at h
    split at h
    · cases h
    · rw [← Option.some.inj h]
      refine ⟨⟨hf.mode_eq, hf.frontier, hf.top, fun s hs => ?_⟩, le_rfl⟩
      rw [← Option.some.inj hs]
      exact ⟨le_rfl, fun _ hn => (by cases hn), .inl rfl⟩
  · simp only [TrackedFile.step] at h
    split at h
    · cases h
    · next before since hsyncing =>
      have htop := hf.syncing _ hsyncing
      split_ifs at h
      · rw [← Option.some.inj h]
        refine ⟨⟨?_, ?_, htop, fun s hs => by cases hs⟩, le_rfl⟩
        · rw [DurableRangeTracker.fsyncThrough, DurableRangeTracker.pageCacheAck_mode, hf.mode_eq]
        · -- the synced prefix was acknowledged before
          rw [DurableRangeTracker.fsyncThrough, DurableRangeTracker.pageCacheAck_acknowledged,
            hf.frontier]
          exact max_eq_left htop.1
      · rw [← Option.some.inj h]
        exact ⟨⟨hf.mode_eq, hf.frontier, hf.top, fun s hs => by cases hs⟩, le_rfl⟩

theorem Inv.run {h : List TrackerCall}
    (hrun : runEvents TrackedFile.step (TrackedFile.new mode) h = some f) : Inv mode f :=
  runEvents_invariant (I := fun _ f => Inv mode f) Inv.new
    (fun _ _ _ _ _ hf hstep => (hf.step hstep).1) hrun

/-! ### The law of the two modes -/

/-- What a checkpoint may claim: in durable mode at most what was acknowledged
before the latest successful sync began, in performance mode exactly the
highest acknowledged offset, and in both never less than before. -/
structure Law (f : TrackedFile) : Prop where
  durable : f.tracker.mode = .durable → f.tracker.admissibleThrough ≤ f.synced
  performance : f.tracker.mode = .performance → f.tracker.admissibleThrough = f.acked
  mono : ∀ call f', f.step call = some f' →
    f.tracker.admissibleThrough ≤ f'.tracker.admissibleThrough

/-- **The durable-range tracker.**  After any history the answer is lawful
exactly when the tracker is in performance mode, or no acknowledgement since
the start of the latest successful sync went past what was acknowledged before
that start. -/
theorem durable_tracker_law {h : List TrackerCall}
    (hrun : runEvents TrackedFile.step (TrackedFile.new mode) h = some f) :
    f.Law ↔ (mode = .durable → ∀ n ∈ f.sinceSync, n ≤ f.synced) := by
  have hf := Inv.run hrun
  have hanswer : f.tracker.admissibleThrough = f.acked :=
    f.tracker.admissibleThrough_eq.trans hf.frontier
  obtain ⟨-, hall, hattained⟩ := hf.top
  constructor
  · intro hlaw hmode n hn
    have hle := hlaw.durable (hf.mode_eq.trans hmode)
    rw [hanswer] at hle
    exact (hall n hn).trans hle
  · intro hquiet
    refine ⟨fun hmode => ?_, fun _ => hanswer, fun call f' hstep => ?_⟩
    · rw [hanswer]
      rcases hattained with heq | hmem
      · exact heq.le
      · exact hquiet (hf.mode_eq.symm.trans hmode) _ hmem
    · obtain ⟨hf', hle⟩ := hf.step hstep
      rw [hanswer, f'.tracker.admissibleThrough_eq, hf'.frontier]
      exact hle

/-- The sync makes the acknowledged bytes durable. -/
theorem durable_tracker_law_synced :
    ∃ f, runEvents TrackedFile.step (TrackedFile.new .durable)
        [.pageCacheAck 100, .syncStart, .syncEnd true] = some f ∧ f.Law := by
  have hrun : runEvents TrackedFile.step (TrackedFile.new .durable)
      [.pageCacheAck 100, .syncStart, .syncEnd true] =
        some ⟨⟨.durable, 100⟩, 100, none, 100, []⟩ := rfl
  exact ⟨_, hrun, (durable_tracker_law hrun).mpr fun _ n hn => by cases hn⟩

/-- One acknowledged chunk without any sync is already claimed durable. -/
theorem durable_claimed_without_sync :
    ¬ ∀ (mode : DurabilityMode) (h : List TrackerCall) (f : TrackedFile),
      runEvents TrackedFile.step (TrackedFile.new mode) h = some f → f.Law := by
  intro hall
  have hlaw := hall .durable [.pageCacheAck 100] ⟨⟨.durable, 100⟩, 100, none, 0, [100]⟩ rfl
  exact absurd (hlaw.durable rfl) (by decide)

end TrackedFile

end KDown
