/-
KDown/CoordinatedStore.lean

Coordinated checkpoint saves (resume/coordinated_store.rs).

The coordinating store remembers the last accepted checkpoint of each job and
forwards every later snapshot with the union of both range sets, so that a
stale snapshot never takes progress back.  All other fields come from the
caller's snapshot, the digest over its covered bytes included.

`saves_bound_iff` says when the forwarded checkpoints stay bound to the temp
file: exactly when, at each forwarded save, the digest is absent or the bytes
it was taken over are also the first covered bytes of the union.
-/
import KDown.Checkpoint
import KDown.SortedMap
import Mathlib.Data.List.Sort
import Mathlib.Data.String.Basic

namespace KDown

/-! ### Union of range lists -/

/-- Lexicographic order of ranges. -/
def rangeLe (a b : ByteRange) : Prop := a.1 < b.1 ∨ a.1 = b.1 ∧ a.2 ≤ b.2

instance : DecidableRel rangeLe := fun a b =>
  inferInstanceAs (Decidable (a.1 < b.1 ∨ a.1 = b.1 ∧ a.2 ≤ b.2))

/-- Merge a range into the last one if it overlaps or touches; the list is kept
last range first. -/
def mergeRange : List ByteRange → ByteRange → List ByteRange
  | [], r => [r]
  | (ps, pe) :: merged, (start, stop) =>
      if start ≤ pe + 1 then (ps, max pe stop) :: merged
      else (start, stop) :: (ps, pe) :: merged

/-- Normalized union of two completed-range sets. -/
def unionRanges (a b : List ByteRange) : List ByteRange :=
  (((a ++ b).insertionSort rangeLe).foldl mergeRange []).reverse

/-! ### Saves -/

/-- The last accepted checkpoint of each job. -/
abbrev Accepted := SortedMap String Checkpoint

/-- The generation conflict of a snapshot. -/
def generationChanged (jobId : String) : CheckpointError :=
  .inconsistent s!"checkpoint generation changed mid-job for {jobId}"

/-- What a save hands to the inner store: an error, nothing, or a checkpoint. -/
def forwardedBy (accepted : Accepted) (cp : Checkpoint) :
    Except CheckpointError (Option Checkpoint) :=
  match accepted.get? cp.jobId with
  | some prev =>
      if prev.validators ≠ cp.validators ∨ prev.totalSize ≠ cp.totalSize then
        .error (generationChanged cp.jobId)
      else
        let merged := unionRanges prev.completedRanges cp.completedRanges
        -- a snapshot that adds nothing is not written again
        if merged = prev.completedRanges then .ok none
        -- the ranges are the union, all other fields are the caller's
        else .ok (some { cp with completedRanges := merged })
  | none => .ok (some cp)

/-- A save; `inner` is the inner store's answer to a forwarded checkpoint. -/
def saveAtomic (accepted : Accepted) (cp : Checkpoint) (inner : Except CheckpointError Unit) :
    Except CheckpointError Unit × Accepted :=
  match forwardedBy accepted cp with
  | .error e => (.error e, accepted)
  | .ok none => (.ok (), accepted)
  | .ok (some forwarded) =>
      match inner with
      | .error e => (.error e, accepted)
      | .ok () => (.ok (), accepted.insert cp.jobId forwarded)

/-- A deletion forgets the accepted checkpoint when the inner store agrees. -/
def deleteCheckpoint (accepted : Accepted) (jobId : String)
    (inner : Except CheckpointError Unit) : Except CheckpointError Unit × Accepted :=
  match inner with
  | .error e => (.error e, accepted)
  | .ok () => (.ok (), accepted.erase jobId)

/-- One save of a run: the temp entry it happens over, the snapshot, and the
inner store's answer. -/
structure SaveCall where
  entry : Option TempEntry
  checkpoint : Checkpoint
  inner : Except CheckpointError Unit

/-- The checkpoints a run of saves forwards, each with the entry of that time. -/
def forwardedRun : Accepted → List SaveCall → List (Option TempEntry × Checkpoint)
  | _, [] => []
  | accepted, c :: calls =>
      let rest := forwardedRun (saveAtomic accepted c.checkpoint c.inner).2 calls
      match forwardedBy accepted c.checkpoint with
      | .ok (some forwarded) => (c.entry, forwarded) :: rest
      | _ => rest

/-! ### When forwarded checkpoints are bound -/

/-- The snapshot's digest also describes the union with what was accepted
before: there is none, or both start with the same covered bytes. -/
def DigestFitsUnion (accepted : Accepted) (c : SaveCall) : Prop :=
  ∀ prev, accepted.get? c.checkpoint.jobId = some prev →
    prev.validators = c.checkpoint.validators → prev.totalSize = c.checkpoint.totalSize →
    unionRanges prev.completedRanges c.checkpoint.completedRanges ≠ prev.completedRanges →
    c.checkpoint.coveredDigest = none ∨
      coveredBytes c.entry (unionRanges prev.completedRanges c.checkpoint.completedRanges) =
        coveredBytes c.entry c.checkpoint.completedRanges

/-- Every save of the run meets the condition in the state it starts from. -/
def RunFits : Accepted → List SaveCall → Prop
  | _, [] => True
  | accepted, c :: calls =>
      DigestFitsUnion accepted c ∧ RunFits (saveAtomic accepted c.checkpoint c.inner).2 calls

variable {hash : List UInt8 → String}

/-- What one save forwards. -/
theorem forwardedBy_cases (accepted : Accepted) (cp : Checkpoint) :
    (∀ forwarded, forwardedBy accepted cp ≠ .ok (some forwarded)) ∧
        (∀ prev, accepted.get? cp.jobId = some prev → prev.validators = cp.validators →
          prev.totalSize = cp.totalSize →
          unionRanges prev.completedRanges cp.completedRanges = prev.completedRanges) ∨
    (accepted.get? cp.jobId = none ∧ forwardedBy accepted cp = .ok (some cp)) ∨
    ∃ prev, accepted.get? cp.jobId = some prev ∧ prev.validators = cp.validators ∧
      prev.totalSize = cp.totalSize ∧
      unionRanges prev.completedRanges cp.completedRanges ≠ prev.completedRanges ∧
      forwardedBy accepted cp = .ok (some { cp with
        completedRanges := unionRanges prev.completedRanges cp.completedRanges }) := by
  unfold forwardedBy
  rcases e : accepted.get? cp.jobId with - | prev
  · exact .inr (.inl ⟨rfl, rfl⟩)
  simp only
  split_ifs with hgen hsame
  · refine .inl ⟨by simp, fun p hp hv ht => ?_⟩
    cases hp
    exact absurd hgen (by simp [hv, ht])
  · refine .inl ⟨by simp, fun p hp _ _ => ?_⟩
    cases hp
    exact hsame
  · simp only [not_or, not_not] at hgen
    exact .inr (.inr ⟨prev, rfl, hgen.1, hgen.2, hsame, rfl⟩)

/-- A bound snapshot with other ranges is bound exactly when its digest, if any,
was taken over the same bytes. -/
theorem bound_with_ranges_iff (hinj : Function.Injective hash) {cp : Checkpoint}
    {entry : Option TempEntry} (hbound : cp.Bound hash entry) (ranges : List ByteRange) :
    ({ cp with completedRanges := ranges } : Checkpoint).Bound hash entry ↔
      cp.coveredDigest = none ∨
        coveredBytes entry ranges = coveredBytes entry cp.completedRanges := by
  simp only [Checkpoint.Bound]
  rcases hbound with hnone | heq
  · simp [hnone]
  · rw [← heq]
    refine or_congr_right ⟨fun h => ?_, fun h => by simp only [coveredDigest, h]⟩
    exact Option.map_injective hinj h

/-- One save forwards a bound checkpoint exactly when the digest fits. -/
theorem forwardedBy_bound_iff (hinj : Function.Injective hash) (accepted : Accepted)
    {c : SaveCall} (hbound : c.checkpoint.Bound hash c.entry) :
    (∀ forwarded, forwardedBy accepted c.checkpoint = .ok (some forwarded) →
        forwarded.Bound hash c.entry) ↔ DigestFitsUnion accepted c := by
  rcases forwardedBy_cases accepted c.checkpoint with ⟨hno, hsame⟩ | ⟨hnone, hfwd⟩ |
    ⟨prev, hget, hv, ht, hne, hfwd⟩
  · refine ⟨fun _ p hp hv ht hne => absurd (hsame p hp hv ht) hne, fun _ f hf => ?_⟩
    exact absurd hf (hno f)
  · refine ⟨fun _ p hp => ?_, fun _ f hf => ?_⟩
    · rw [hnone] at hp; cases hp
    · rw [hfwd] at hf; cases hf; exact hbound
  · constructor
    · intro h p hp _ _ _
      obtain rfl : prev = p := Option.some.inj (hget.symm.trans hp)
      exact (bound_with_ranges_iff hinj hbound _).mp (h _ hfwd)
    · intro h f hf
      rw [hfwd] at hf
      cases hf
      exact (bound_with_ranges_iff hinj hbound _).mpr (h prev hget hv ht hne)

/-- The forwarded checkpoints of a run that are bound, and that a later binding
check accepts over the unchanged entry. -/
def AllBound (hash : List UInt8 → String) (forwarded : List (Option TempEntry × Checkpoint)) :
    Prop :=
  ∀ p ∈ forwarded, p.2.Bound hash p.1 ∧
    ∀ tempPath, p.2.Identified tempPath p.1 → p.2.verifyLocalBinding hash tempPath p.1 = .ok ()

/-- The check of all forwarded saves is what it says. -/
theorem allBound_iff {forwarded : List (Option TempEntry × Checkpoint)} :
    AllBound hash forwarded ↔ ∀ p ∈ forwarded, p.2.Bound hash p.1 := by
  refine ⟨fun h p hp => (h p hp).1, fun h p hp => ⟨h p hp, fun path hid => ?_⟩⟩
  exact (Checkpoint.verifyLocalBinding_eq_ok hash).mpr ⟨hid, h p hp⟩

/-- **The forwarded saves are bound exactly if the run fits.** -/
theorem forwardedRun_bound_iff (hinj : Function.Injective hash) (accepted : Accepted)
    (calls : List SaveCall) (hbound : ∀ c ∈ calls, c.checkpoint.Bound hash c.entry) :
    (∀ p ∈ forwardedRun accepted calls, p.2.Bound hash p.1) ↔ RunFits accepted calls := by
  induction calls generalizing accepted with
  | nil => exact ⟨fun _ => trivial, fun _ p hp => by cases hp⟩
  | cons c calls ih =>
    have hone := forwardedBy_bound_iff hinj accepted (hbound c (List.mem_cons_self ..))
    have hrest := ih (saveAtomic accepted c.checkpoint c.inner).2
      fun c' hc' => hbound c' (List.mem_cons_of_mem _ hc')
    -- the head is settled by its own save, the tail by the induction
    simp only [RunFits, forwardedRun, ← hone, ← hrest]
    rcases e : forwardedBy accepted c.checkpoint with err | - | forwarded
    · simp
    · simp
    · simp [or_imp, forall_and]

/-- **Saves stay bound.**  For bound snapshots, every checkpoint a run of saves
forwards is bound to the temp file, and passes a later binding check, exactly
when each save's digest fits the union it is forwarded with. -/
theorem saves_bound_iff (hash : List UInt8 → String) (hinj : Function.Injective hash)
    (calls : List SaveCall) (hbound : ∀ c ∈ calls, c.checkpoint.Bound hash c.entry) :
    AllBound hash (forwardedRun .empty calls) ↔ RunFits .empty calls := by
  rw [allBound_iff]
  exact forwardedRun_bound_iff hinj .empty calls hbound

/-! ### Two saves over one file -/

/-- Bytes covered by an earlier snapshot of the job do not change. -/
def Frozen (calls : List SaveCall) : Prop :=
  calls.Pairwise fun a b => a.checkpoint.jobId = b.checkpoint.jobId →
    ∀ r ∈ a.checkpoint.completedRanges, ∀ i, r.1 ≤ i → i ≤ r.2 →
      (a.entry.bind (·.content[i]?)) = (b.entry.bind (·.content[i]?))

/-- An injective digest: the bytes themselves, as characters. -/
def plainDigest (bytes : List UInt8) : String :=
  String.ofList (bytes.map Char.ofUInt8)

theorem plainDigest_injective : Function.Injective plainDigest := by
  have hchar : Function.Injective Char.ofUInt8 := by
    intro a b h
    exact UInt8.toUInt32_inj.mp (congrArg Char.val h)
  intro a b h
  exact List.map_injective_iff.mpr hchar (String.ofList_injective h)

/-- A temp file of eight bytes. -/
def sampleEntry : Option TempEntry :=
  some { kind := .regular, dev := 1, ino := 7, links := 1, readable := true,
         content := [10, 11, 12, 13, 14, 15, 16, 17] }

/-- A snapshot with the given ranges, bound to the sample file. -/
def sampleSave (ranges : List ByteRange) : SaveCall where
  entry := sampleEntry
  checkpoint :=
    { formatVersion := 2, jobId := "job", tempPathIdentity := "out.part",
      ownedTempIdentity := none, coveredDigest := coveredDigest plainDigest sampleEntry ranges,
      totalSize := some 8, validators := ⟨some "v1", false, none, some 8⟩,
      completedRanges := ranges, expectedHashes := [], createdAt := "0", updatedAt := "0" }
  inner := .ok ()

theorem sampleSave_bound (ranges : List ByteRange) :
    (sampleSave ranges).checkpoint.Bound plainDigest (sampleSave ranges).entry :=
  .inr rfl

/-- Growing snapshots stay bound. -/
theorem saves_bound_growing :
    AllBound plainDigest
      (forwardedRun .empty [sampleSave [(0, 1)], sampleSave [(0, 3)]]) := by
  have hfits : RunFits .empty [sampleSave [(0, 1)], sampleSave [(0, 3)]] := by
    simp only [RunFits]
    refine ⟨fun prev hprev => ?_, fun prev hprev _ _ _ => .inr ?_, trivial⟩
    · cases hprev
    · obtain rfl : (sampleSave [(0, 1)]).checkpoint = prev := Option.some.inj hprev
      decide
  have hbound : ∀ c ∈ [sampleSave [(0, 1)], sampleSave [(0, 3)]],
      c.checkpoint.Bound plainDigest c.entry := by
    intro c hc
    simp only [List.mem_cons, List.not_mem_nil, or_false] at hc
    rcases hc with rfl | rfl <;> exact sampleSave_bound _
  exact (saves_bound_iff plainDigest plainDigest_injective _ hbound).mpr hfits

/-- The second snapshot covers other bytes than the first.  It is forwarded with
both ranges and the digest of its own one. -/
theorem union_save_unbound :
    ¬ ∀ (hash : List UInt8 → String) (calls : List SaveCall), Function.Injective hash →
      (∀ c ∈ calls, c.checkpoint.Bound hash c.entry) → Frozen calls →
      AllBound hash (forwardedRun .empty calls) := by
  intro h
  have hall := h plainDigest [sampleSave [(0, 1)], sampleSave [(4, 5)]] plainDigest_injective
    (by
      intro c hc
      simp only [List.mem_cons, List.not_mem_nil, or_false] at hc
      rcases hc with rfl | rfl <;> exact sampleSave_bound _)
    (by
      refine List.pairwise_pair.mpr fun _ r _ i _ _ => ?_
      rfl)
  have hlast := (hall (sampleEntry, { (sampleSave [(4, 5)]).checkpoint with
    completedRanges := [(0, 1), (4, 5)] }) (by decide)).1
  rcases hlast with hnone | heq
  · exact absurd hnone (by decide)
  · exact absurd heq (by decide)

end KDown
