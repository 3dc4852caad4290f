/-
KDown/JobArtifacts.lean

What a job reports of its artifacts, and what is on disk (job/controller.rs,
job/segmented.rs, io/sink.rs).

The disposition is put together in each exit branch, before the session is
dropped.  It is wrong where a branch reports what it expects and not what it
finds.  `fault` lists these places, each by the state before the step and the
answers the step gets:

* an exit before the output is open reports nothing, also when an earlier run
  left a checkpoint or a partial file (`earlier`);
* the sequential loop and verification report the checkpoint they know of, and
  there may be another one in the store (`uncounted`);
* `KeepPartial` and a failed save report a checkpoint that may never have been
  saved;
* a removal or a deletion that failed is reported as final, and may be made up
  for (`removalMadeUp`, `deletionMadeUp`);
* a failed publication reports the session's disposition, while a finalized
  session keeps its file whatever that is (`failed_publication_keeps_file`).

`disposition_truthful` says that without a fault the report is exact.
-/
import KDown.JobRun

namespace KDown

namespace JobRun

variable {cfg : RetryPolicy} {s s' : JobRun}

/-! ### The faults -/

/-- An earlier run has left a partial file or a checkpoint. -/
def earlier (s : JobRun) : Bool := s.disk.temp || s.disk.checkpoint

/-- The store holds a checkpoint that the loop does not count: a fresh admission
has left it there, or the coordinator has saved it. -/
def uncounted (s : JobRun) : Bool := s.disk.checkpoint && !s.checkpointRetained

/-- The same in a segmented transfer, which counts what the coordinator saved. -/
def uncountedSegmented (s : JobRun) : Bool :=
  s.disk.checkpoint && !(s.checkpointRetained || s.checkpointSaved)

/-- A removal fails, and the drop of the session makes up for it. -/
def removalMadeUp (s : JobRun) (exit : ExitAnswers) : Bool :=
  !exit.aborted && !s.session.preserves && exit.dropped

/-- A deletion fails, although it has removed the checkpoint or found none. -/
def deletionMadeUp (s : JobRun) (exit : ExitAnswers) : Bool :=
  !exit.deleted && (exit.removed || !s.disk.checkpoint)

/-- Cleaning up a cancelled job: `KeepPartial` keeps a checkpoint that is not
there, or a failed removal or deletion is made up for. -/
def cleanupFault (s : JobRun) (exit : ExitAnswers) : Bool :=
  match s.mode with
  | .deletePartial => s.removalMadeUp exit || s.deletionMadeUp exit
  | .keepPartial => !s.disk.checkpoint
  | .keepFileDiscardCheckpoint => s.deletionMadeUp exit

/-- Failing with the temp file removed. -/
def abortFault (s : JobRun) (exit : ExitAnswers) : Bool :=
  s.uncounted || s.removalMadeUp exit

/-- Opening the output: a file to resume is gone; or a new one fails with a
checkpoint in the store, with a stale file that was not cleared, or with an entry
of its own left behind. -/
def openFault (s : JobRun) : OpenAnswer → Bool
  | .opened => false
  | .failed _ cleared stray =>
      if s.resuming then !s.disk.temp
      else s.disk.checkpoint || leftByCreation s.disk.temp cleared stray

/-- Replacing the temp file: the old session's drop removes the new file; or the
creation fails, and it has cleared what `abort` could not remove or left an entry
of its own where `abort` had removed one. -/
def recreateFault (s : JobRun) (exit : ExitAnswers) : OpenAnswer → Bool
  | .opened => s.removalMadeUp exit
  | .failed _ cleared stray => s.abortFault exit || (cleared && stray == exit.aborted)

/-- Going on in the same file. -/
def reopenFault (s : JobRun) : OpenAnswer → Bool
  | .opened => false
  | .failed _ _ _ => s.uncounted

/-- Giving up after two removals, of which the second is reported: it fails
where the first succeeded, or the drop makes up for both. -/
def giveUpFault (s : JobRun) (exit : ExitAnswers) : Bool :=
  s.uncounted || (!exit.abortedAgain && (exit.aborted || s.removalMadeUp exit))

/-- An exit of verification: a file that is not preserved survives its drop. -/
def unverifiedFault (s : JobRun) (exit : ExitAnswers) : Bool :=
  s.uncounted || (!s.session.preserves && !exit.dropped)

/-- The step reports what is not there, or does not report what is, or loses the
file it goes on with. -/
def fault (cfg : RetryPolicy) (s : JobRun) : JobEvent → Bool
  | .admissionRejected _ _ => s.earlier
  | .rejected _ => s.earlier
  | .probeCancelled => s.earlier
  | .probeRefused _ => s.earlier
  | .probeFailed error => (cfg.decide error s.attempt).isNone && s.earlier
  | .unresolved _ => s.earlier
  | .opened answer _ => s.openFault answer
  | .observeCancel exit => s.cleanupFault exit
  | .refused error exit =>
      if error.domain = .cancelled || s.cancelled then s.cleanupFault exit else s.abortFault exit
  | .fatal _ exit => s.abortFault exit
  | .transferFailed error exit next =>
      if (cfg.decide error s.attempt).isSome then s.recreateFault exit next
      else s.giveUpFault exit
  | .bodyFailed error durable exit next =>
      if error.domain = .cancelled then s.cleanupFault exit
      else if (cfg.decide error s.attempt).isSome then
        if durable then s.reopenFault next else s.recreateFault exit next
      else s.abortFault exit
  -- the first save fails and stores nothing
  | .saveFailed _ stored _ => !s.disk.checkpoint && !stored
  | .segmentedRefused _ _ => s.uncountedSegmented
  | .joined workerError reclaimError fatal complete exit =>
      if s.cancelled && reclaimError.isNone then s.cleanupFault exit
      else if !s.cancelled && ((workerError.or reclaimError).or fatal).isNone && complete then false
      else s.uncountedSegmented
  | .verifyCancelled exit => s.unverifiedFault exit
  | .verifyFailed _ exit => s.unverifiedFault exit
  | .finalizeFailed _ exit => s.unverifiedFault exit
  -- the file is kept, preserved or not
  | .commitFailed _ _ => s.uncounted || !s.session.preserves
  | _ => false

/-! ### The report of one exit -/

/-- What the disk holds after the session has been dropped. -/
def leftBehind (s : JobRun) (dropped : Bool) : ArtifactDisposition :=
  ⟨s.disk.temp && !(s.session.removesOnDrop && dropped), s.disk.checkpoint⟩

/-- The task has returned, and an error it reports names what is on disk. -/
structure Reported (s : JobRun) : Prop where
  returned : s.point = .returned ∨ s.point = .reported
  truthful : ∀ err, s.result = some (.error err) →
    err.artifacts = ⟨s.disk.temp, s.disk.checkpoint⟩

theorem reported_terminalError {error : DownloadError} {artifacts : ArtifactDisposition}
    {mode : CancelMode} {dropped : Bool} (h : artifacts = s.leftBehind dropped) :
    Reported (s.terminalError error artifacts mode dropped) := by
  rw [terminalError]
  split <;>
  · refine ⟨.inl rfl, fun err herr => ?_⟩
    cases herr
    exact h

theorem reported_terminalCancelled {mode : CancelMode} {artifacts : ArtifactDisposition}
    {dropped : Bool} (h : artifacts = s.leftBehind dropped) :
    Reported (s.terminalCancelled mode artifacts dropped) := by
  refine ⟨.inl rfl, fun err herr => ?_⟩
  cases herr
  exact h

/-! ### The session is open -/

/-- What the job counts is in the store. -/
def Counted (s : JobRun) : Prop :=
  (s.checkpointRetained || s.checkpointSaved) = true → s.disk.checkpoint = true

/-- Nothing uncounted: the sequential report is exact. -/
theorem Counted.retained (h : Counted s) (hnone : s.uncounted = false) :
    s.checkpointRetained = s.disk.checkpoint := by
  unfold Counted at h
  unfold uncounted at hnone
  cases hr : s.checkpointRetained <;> cases hd : s.disk.checkpoint <;> simp_all

/-- Nothing uncounted: the segmented report is exact. -/
theorem Counted.segmented (h : Counted s) (hnone : s.uncountedSegmented = false) :
    (s.checkpointRetained || s.checkpointSaved) = s.disk.checkpoint := by
  unfold Counted at h
  unfold uncountedSegmented at hnone
  cases hr : s.checkpointRetained || s.checkpointSaved <;>
    cases hd : s.disk.checkpoint <;> simp_all

/-- A session is open and has not been finalized. -/
structure Open (s : JobRun) : Prop where
  temp : s.disk.temp = true
  finalized : s.session.finalized = false
  aborted : s.session.aborted = false
  counted : Counted s

/-- In the sequential loop. -/
structure OpenSequential (s : JobRun) : Prop extends Open s where
  point : s.point = .sequential

theorem Open.removesOnDrop (h : Open s) : s.session.removesOnDrop = !s.session.preserves := by
  rw [TempSession.removesOnDrop, h.finalized, h.aborted]
  rfl

/-- A removal touches only the temp file and the session. -/
theorem abort_frame (aborted : Bool) :
    (s.abort aborted).1.point = s.point ∧ (s.abort aborted).1.disk.checkpoint = s.disk.checkpoint ∧
      (s.abort aborted).1.checkpointRetained = s.checkpointRetained ∧
      (s.abort aborted).1.checkpointSaved = s.checkpointSaved := by
  rw [abort]
  split <;> exact ⟨rfl, rfl, rfl, rfl⟩

/-- A removal and its report, when a failed one is not made up for. -/
theorem abort_leftBehind {exit : ExitAnswers} (h : Open s)
    (hfinal : s.removalMadeUp exit = false) :
    (⟨(s.abort exit.aborted).2, s.disk.checkpoint⟩ : ArtifactDisposition) =
      (s.abort exit.aborted).1.leftBehind exit.dropped := by
  rw [abort]
  cases hab : exit.aborted with
  | true => rfl
  | false =>
    have hkept : (!s.session.preserves && exit.dropped) = false := by
      rw [removalMadeUp, hab] at hfinal
      exact hfinal
    show _ = s.leftBehind exit.dropped
    rw [leftBehind, h.removesOnDrop, h.temp, hkept]
    rfl

/-- A deletion and its report, when a failed one is not made up for. -/
theorem deleteCheckpoint_leftBehind {exit : ExitAnswers}
    (hfinal : s.deletionMadeUp exit = false) (dropped : Bool) :
    (s.deleteCheckpoint exit).1.leftBehind dropped =
      ⟨(s.leftBehind dropped).tempRetained, (s.deleteCheckpoint exit).2⟩ := by
  rw [deleteCheckpoint]
  cases hd : exit.deleted with
  | true => rfl
  | false =>
    rw [deletionMadeUp, hd, Bool.not_false, Bool.true_and, Bool.or_eq_false_iff,
      Bool.not_eq_false'] at hfinal
    have hleft : (s.disk.checkpoint && !exit.removed) = true := by
      rw [hfinal.1, hfinal.2]
      rfl
    show leftBehind { s with disk :=
      { s.disk with checkpoint := s.disk.checkpoint && !exit.removed } } dropped = _
    rw [hleft]
    rfl

theorem preservePartial_removesOnDrop : s.preservePartial.session.removesOnDrop = false := by
  show (!s.session.finalized && !s.session.aborted && !true) = false
  rw [Bool.not_true, Bool.and_false]

theorem preservePartial_leftBehind (htemp : s.disk.temp = true) (dropped : Bool) :
    s.preservePartial.leftBehind dropped = ⟨true, s.disk.checkpoint⟩ := by
  rw [leftBehind, preservePartial_removesOnDrop]
  show ArtifactDisposition.mk (s.disk.temp && !(false && dropped)) s.disk.checkpoint = _
  rw [htemp]
  rfl

/-- The cleanup of a cancelled job reports what it leaves. -/
theorem cleanup_leftBehind {exit : ExitAnswers} (h : Open s)
    (hfinal : s.cleanupFault exit = false) :
    (s.cleanupCancelled s.mode exit).2 =
      (s.cleanupCancelled s.mode exit).1.leftBehind exit.dropped := by
  rw [cleanupFault] at hfinal
  cases hm : s.mode with
  | deletePartial =>
    rw [hm] at hfinal
    obtain ⟨hremoval, hdeletion⟩ := Bool.or_eq_false_iff.mp hfinal
    have hopen : Open { s with cleanedWith := some .deletePartial } :=
      ⟨h.temp, h.finalized, h.aborted, h.counted⟩
    have htemp := abort_leftBehind hopen hremoval
    have hchecked : (abort { s with cleanedWith := some .deletePartial }
        exit.aborted).1.deletionMadeUp exit = false := by
      rw [deletionMadeUp, (abort_frame exit.aborted).2.1]
      exact hdeletion
    rw [cleanupCancelled, deleteCheckpoint_leftBehind hchecked, ← htemp]
  | keepPartial =>
    rw [hm] at hfinal
    have hcheckpoint : s.disk.checkpoint = true := by simpa using hfinal
    have hkept := preservePartial_leftBehind (s := { s with cleanedWith := some .keepPartial })
      h.temp exit.dropped
    have hboth : ArtifactDisposition.mk true s.disk.checkpoint = ⟨true, true⟩ := by
      rw [hcheckpoint]
    exact hboth.symm.trans hkept.symm
  | keepFileDiscardCheckpoint =>
    rw [hm] at hfinal
    have hkept := preservePartial_leftBehind
      (s := { s with cleanedWith := some .keepFileDiscardCheckpoint }) h.temp exit.dropped
    rw [cleanupCancelled, deleteCheckpoint_leftBehind (s := preservePartial
      { s with cleanedWith := some .keepFileDiscardCheckpoint }) hfinal, hkept]

/-! ### The invariant -/

/-- The session is open and the transfer is complete. -/
def isComplete : JobPoint → Bool
  | .assembled => true
  | .verifying => true
  | .committing => true
  | _ => false

/-- What holds at each point. -/
def ArtifactInv (s : JobRun) : Prop :=
  match s.point with
  | .starting | .probing | .resolving => s.checkpointSaved = false
  | .preparing => Counted s ∧ (s.resuming = true → s.checkpointRetained = true)
  | .sequential => OpenSequential s
  | .segmented => Open s ∧ s.session.preserves = true
  | .assembled | .verifying | .committing => Open s
  | .publishing => s.session.finalized = true ∧ s.disk.temp = true ∧ Counted s
  | .returned | .reported => Reported s

theorem ArtifactInv.of_reported (h : Reported s) : ArtifactInv s := by
  rw [ArtifactInv]
  cases h.returned with
  | inl hp =>
    rw [hp]
    exact h
  | inr hp =>
    rw [hp]
    exact h

theorem ArtifactInv.of_sequential (h : OpenSequential s) : ArtifactInv s := by
  rw [ArtifactInv, h.point]
  exact h

theorem ArtifactInv.sequential (hi : ArtifactInv s) (hp : s.point = .sequential) :
    OpenSequential s := by
  rw [ArtifactInv, hp] at hi
  exact hi

theorem ArtifactInv.complete {p : JobPoint} (hi : ArtifactInv s) (hp : s.point = p)
    (hcomplete : isComplete p = true) : Open s := by
  rw [ArtifactInv, hp] at hi
  cases p <;> first | exact hi | cases hcomplete

/-- `s'` has the artifacts of `s` and counts the same. -/
structure SameArtifacts (s s' : JobRun) : Prop where
  disk : s'.disk = s.disk
  session : s'.session = s.session
  resuming : s'.resuming = s.resuming
  retained : s'.checkpointRetained = s.checkpointRetained
  saved : s'.checkpointSaved = s.checkpointSaved

theorem SameArtifacts.counted (hs : SameArtifacts s s') (h : Counted s) : Counted s' := by
  rw [Counted, hs.disk, hs.retained, hs.saved]
  exact h

theorem SameArtifacts.open (hs : SameArtifacts s s') (h : Open s) : Open s' where
  temp := hs.disk ▸ h.temp
  finalized := hs.session ▸ h.finalized
  aborted := hs.session ▸ h.aborted
  counted := hs.counted h.counted

/-- The invariant reads neither mode nor token nor deadline. -/
theorem ArtifactInv.frame (hi : ArtifactInv s) (hs : SameArtifacts s s')
    (hpoint : s'.point = s.point) (hresult : s'.result = s.result) : ArtifactInv s' := by
  have hreported : Reported s → Reported s' := fun h =>
    ⟨by rw [hpoint]; exact h.returned, fun err herr => by
      rw [hs.disk]
      exact h.truthful err (hresult ▸ herr)⟩
  rw [ArtifactInv] at hi ⊢
  rw [hpoint]
  cases hp : s.point with
  | starting => exact hs.saved.trans (by rw [hp] at hi; exact hi)
  | probing => exact hs.saved.trans (by rw [hp] at hi; exact hi)
  | resolving => exact hs.saved.trans (by rw [hp] at hi; exact hi)
  | preparing =>
    rw [hp] at hi
    exact ⟨hs.counted hi.1, by rw [hs.resuming, hs.retained]; exact hi.2⟩
  | sequential =>
    rw [hp] at hi
    exact ⟨hs.open hi.toOpen, hpoint.trans hp⟩
  | segmented =>
    rw [hp] at hi
    exact ⟨hs.open hi.1, hs.session ▸ hi.2⟩
  | assembled =>
    rw [hp] at hi
    exact hs.open hi
  | verifying =>
    rw [hp] at hi
    exact hs.open hi
  | committing =>
    rw [hp] at hi
    exact hs.open hi
  | publishing =>
    rw [hp] at hi
    exact ⟨hs.session ▸ hi.1, hs.disk ▸ hi.2.1, hs.counted hi.2.2⟩
  | returned =>
    rw [hp] at hi
    exact hreported hi
  | reported =>
    rw [hp] at hi
    exact hreported hi

/-! ### The exits report what they leave -/

theorem earlier_eq_false (h : s.earlier = false) : s.disk = ⟨false, false⟩ := by
  obtain ⟨htemp, hcheckpoint⟩ := Bool.or_eq_false_iff.mp h
  rw [show s.disk = ⟨s.disk.temp, s.disk.checkpoint⟩ from rfl, htemp, hcheckpoint]

theorem reported_exitBare {error : DownloadError} (h : s.earlier = false) :
    Reported (s.exitBare error) := by
  apply reported_terminalError
  rw [leftBehind, earlier_eq_false h]
  rfl

theorem reported_exitCancelledBare (h : s.earlier = false) : Reported s.exitCancelledBare := by
  apply reported_terminalCancelled
  show _ = s.leftBehind false
  rw [leftBehind, earlier_eq_false h]
  rfl

theorem reported_exitCancelled {exit : ExitAnswers} (h : Open s)
    (hfinal : s.cleanupFault exit = false) : Reported (s.exitCancelled exit) :=
  reported_terminalCancelled (cleanup_leftBehind h hfinal)

theorem reported_exitAborted {error : DownloadError} {exit : ExitAnswers} (h : Open s)
    (hfinal : s.abortFault exit = false) : Reported (s.exitAborted error exit) := by
  obtain ⟨hcounted, hremoval⟩ := Bool.or_eq_false_iff.mp hfinal
  apply reported_terminalError
  rw [h.counted.retained hcounted]
  exact abort_leftBehind h hremoval

/-- **Opening the output keeps the report truthful** while no call of it goes
wrong. -/
theorem artifact_openOutput {answer : OpenAnswer} {eligible : Bool} (hcounted : Counted s)
    (hresume : s.resuming = true → s.checkpointRetained = true)
    (hok : s.openFault answer = false) : ArtifactInv (s.openOutput answer eligible) := by
  cases answer with
  | opened =>
    have hfresh : ∀ b : Bool, (if b then TempSession.reopened else .created).finalized = false ∧
        (if b then TempSession.reopened else .created).aborted = false := by
      intro b
      cases b <;> exact ⟨rfl, rfl⟩
    cases eligible with
    | true =>
      show Open (s.openOutput .opened true) ∧ (s.openOutput .opened true).session.preserves = true
      exact ⟨⟨rfl, (hfresh _).1, (hfresh _).2, hcounted⟩, rfl⟩
    | false =>
      show OpenSequential (s.openOutput .opened false)
      exact ⟨⟨rfl, (hfresh _).1, (hfresh _).2, hcounted⟩, rfl⟩
  | failed error cleared stray =>
    apply ArtifactInv.of_reported
    rw [openOutput]
    rw [openFault] at hok
    cases hr : s.resuming with
    | true =>
      have htemp : s.disk.temp = true := by simpa [hr] using hok
      have hretained := hresume hr
      have hcheckpoint : s.disk.checkpoint = true := hcounted (by rw [hretained]; rfl)
      apply reported_terminalError
      rw [leftBehind, htemp, hcheckpoint, hretained, Bool.and_false]
      rfl
    | false =>
      rw [hr, if_neg Bool.false_ne_true, Bool.or_eq_false_iff] at hok
      apply reported_terminalError
      show _ = ArtifactDisposition.mk
        (leftByCreation s.disk.temp cleared stray && !(s.session.removesOnDrop && false))
        s.disk.checkpoint
      rw [hok.1, hok.2]
      rfl

/-- The removed session is dropped without touching the file that replaces it. -/
theorem abort_keepsNext {exit : ExitAnswers} (h : Open s)
    (hfinal : s.removalMadeUp exit = false) :
    ((s.abort exit.aborted).1.session.removesOnDrop && exit.dropped) = false := by
  rw [abort]
  cases hab : exit.aborted with
  | true =>
    show (!s.session.finalized && !true && !s.session.preserves && exit.dropped) = false
    rw [Bool.not_true, Bool.and_false, Bool.false_and, Bool.false_and]
  | false =>
    show (s.session.removesOnDrop && exit.dropped) = false
    rw [h.removesOnDrop]
    rw [removalMadeUp, hab] at hfinal
    exact hfinal

/-- What a failed creation leaves is what the removal before it reported. -/
theorem leftByCreation_abort {exit : ExitAnswers} {cleared stray : Bool} (h : Open s)
    (hcreation : (cleared && stray == exit.aborted) = false) :
    leftByCreation (s.abort exit.aborted).1.disk.temp cleared stray =
      (s.abort exit.aborted).2 := by
  rw [abort]
  cases hab : exit.aborted with
  | true =>
    have hstray : (cleared && stray) = false := by simpa [hab] using hcreation
    show leftByCreation false cleared stray = false
    cases cleared with
    | true => exact hstray
    | false => rfl
  | false =>
    show leftByCreation s.disk.temp cleared stray = true
    cases cleared with
    | true =>
      have hstray : stray = true := by simpa [hab] using hcreation
      exact hstray
    | false => exact h.temp

/-- A body that is started over replaces the file, or ends the job. -/
theorem artifact_recreate {attempt : ℕ} {exit : ExitAnswers} {next : OpenAnswer}
    (h : OpenSequential s) (hfinal : s.recreateFault exit next = false) :
    ArtifactInv (s.recreate attempt exit next) := by
  obtain ⟨hpoint, hcheckpoint, hretained, hsaved⟩ := abort_frame (s := s) exit.aborted
  cases next with
  | opened =>
    have hkept := abort_keepsNext h.toOpen hfinal
    apply ArtifactInv.of_sequential
    refine ⟨⟨?_, rfl, rfl, ?_⟩, hpoint.trans h.point⟩
    · show (!((s.abort exit.aborted).1.session.removesOnDrop && exit.dropped)) = true
      rw [hkept]
      rfl
    · show ((s.abort exit.aborted).1.checkpointRetained ||
        (s.abort exit.aborted).1.checkpointSaved) = true →
          (s.abort exit.aborted).1.disk.checkpoint = true
      rw [hcheckpoint, hretained, hsaved]
      exact h.counted
  | failed error cleared stray =>
    obtain ⟨habort, hcreation⟩ := Bool.or_eq_false_iff.mp hfinal
    obtain ⟨hcounted, hremoval⟩ := Bool.or_eq_false_iff.mp habort
    have hkept := abort_keepsNext h.toOpen hremoval
    refine ArtifactInv.of_reported (reported_terminalError ?_)
    show _ = ArtifactDisposition.mk
      (leftByCreation (s.abort exit.aborted).1.disk.temp cleared stray &&
        !((s.abort exit.aborted).1.session.removesOnDrop && exit.dropped))
      (s.abort exit.aborted).1.disk.checkpoint
    rw [hkept, leftByCreation_abort h.toOpen hcreation, hcheckpoint, h.counted.retained hcounted,
      Bool.not_false, Bool.and_true]

/-- A transfer that fails is resumed, started over or given up. -/
theorem artifact_transferFails {error : DownloadError} {exit : ExitAnswers} {next : OpenAnswer}
    (h : OpenSequential s) (hok : s.fault cfg (.transferFailed error exit next) = false) :
    ArtifactInv (s.transferFails cfg error exit next) := by
  simp only [fault] at hok
  rw [transferFails]
  cases hd : cfg.decide error s.attempt with
  | some attempt =>
    simp only [hd, Option.isSome_some, if_true] at hok
    exact artifact_recreate h hok
  | none =>
    simp only [hd, Option.isSome_none, Bool.false_eq_true, if_false] at hok
    obtain ⟨hcounted, hremovals⟩ := Bool.or_eq_false_iff.mp hok
    refine ArtifactInv.of_reported (reported_terminalError ?_)
    obtain ⟨-, hcheckpoint, -, -⟩ := abort_frame (s := s) exit.aborted
    rw [h.counted.retained hcounted]
    cases hagain : exit.abortedAgain with
    | true =>
      show ArtifactDisposition.mk false s.disk.checkpoint =
        ⟨false, (s.abort exit.aborted).1.disk.checkpoint⟩
      rw [hcheckpoint]
    | false =>
      -- both removals failed
      rw [hagain, Bool.not_false, Bool.true_and, Bool.or_eq_false_iff] at hremovals
      have hleft := abort_leftBehind h.toOpen hremovals.2
      rw [hremovals.1] at hleft ⊢
      exact hleft

/-- A body that breaks off is synced before it is kept. -/
theorem artifact_bodyFails {error : DownloadError} {durable : Bool} {exit : ExitAnswers}
    {next : OpenAnswer} (h : OpenSequential s) (hbody : error.domain ≠ .cancelled)
    (hok : s.fault cfg (.bodyFailed error durable exit next) = false) :
    ArtifactInv (s.bodyFails cfg error durable exit next) := by
  simp only [fault, hbody, if_false] at hok
  rw [bodyFails]
  cases hd : cfg.decide error s.attempt with
  | none =>
    simp only [hd, Option.isSome_none, Bool.false_eq_true, if_false] at hok
    exact ArtifactInv.of_reported (reported_exitAborted h.toOpen hok)
  | some attempt =>
    simp only [hd, Option.isSome_some, if_true] at hok
    cases durable with
    | false => exact artifact_recreate h hok
    | true =>
      -- the session preserves its file, which the next one reopens
      cases next with
      | opened =>
        apply ArtifactInv.of_sequential
        refine ⟨⟨?_, rfl, rfl, h.counted⟩, h.point⟩
        show (!(s.preservePartial.session.removesOnDrop && exit.dropped)) = true
        rw [preservePartial_removesOnDrop]
        rfl
      | failed error' cleared stray =>
        refine ArtifactInv.of_reported (reported_terminalError ?_)
        rw [preservePartial_leftBehind h.temp]
        show ArtifactDisposition.mk true s.checkpointRetained = _
        rw [h.counted.retained hok]

theorem reported_saveFailed {detail : String} {stored : Bool} {exit : ExitAnswers} (h : Open s)
    (hstored : (!s.disk.checkpoint && !stored) = false) :
    Reported (s.checkpointSaveFailed detail stored exit) := by
  have hthere : (s.disk.checkpoint || stored) = true := by
    cases hd : s.disk.checkpoint <;> simp_all
  apply reported_terminalError
  show _ = leftBehind (preservePartial
    { s with disk := { s.disk with checkpoint := s.disk.checkpoint || stored } }) exit.dropped
  rw [preservePartial_leftBehind (s := { s with disk :=
    { s.disk with checkpoint := s.disk.checkpoint || stored } }) h.temp]
  exact congrArg _ hthere.symm

theorem reported_segmentedFails {error : DownloadError} {exit : ExitAnswers} (h : Open s)
    (hpreserves : s.session.preserves = true) (hcounted : s.uncountedSegmented = false) :
    Reported (s.segmentedFails error exit) := by
  apply reported_terminalError
  rw [segmentedArtifacts, leftBehind, h.removesOnDrop, hpreserves, h.temp,
    h.counted.segmented hcounted]
  rfl

/-- The workers are joined, with the session still open. -/
theorem artifact_join {workerError reclaimError fatal : Option DownloadError} {complete : Bool}
    {exit : ExitAnswers} (h : Open s) (hpreserves : s.session.preserves = true)
    (hok : s.fault cfg (.joined workerError reclaimError fatal complete exit) = false) :
    ArtifactInv (s.join workerError reclaimError fatal complete exit) := by
  have hfails : s.uncountedSegmented = false → ∀ error, ArtifactInv (s.segmentedFails error exit) :=
    fun hcounted error => ArtifactInv.of_reported (reported_segmentedFails h hpreserves hcounted)
  simp only [fault] at hok
  unfold join
  cases hc : s.cancelled with
  | true =>
    rw [hc] at hok
    rw [if_pos rfl]
    cases reclaimError with
    | none => exact ArtifactInv.of_reported (reported_terminalCancelled (cleanup_leftBehind h hok))
    | some e => exact hfails hok _
  | false =>
    rw [hc] at hok
    rw [if_neg Bool.false_ne_true]
    cases hno : (workerError.or reclaimError).or fatal with
    | some e =>
      rw [hno] at hok
      exact hfails hok e
    | none =>
      rw [hno] at hok
      cases complete with
      | true =>
        exact (⟨h.temp, h.finalized, h.aborted, h.counted⟩ :
          Open { s with point := .assembled, cancelled := false })
      | false => exact hfails hok _

theorem reported_exitUnverified {error : DownloadError} {exit : ExitAnswers} (h : Open s)
    (hfinal : s.unverifiedFault exit = false) : Reported (s.exitUnverified error exit) := by
  obtain ⟨hcounted, hdrop⟩ := Bool.or_eq_false_iff.mp hfinal
  apply reported_terminalError
  rw [leftBehind, h.removesOnDrop, h.temp, h.counted.retained hcounted]
  cases hp : s.session.preserves with
  | true => rfl
  | false =>
    have hdropped : exit.dropped = true := by simpa [hp] using hdrop
    rw [hdropped]
    rfl

theorem reported_commitFailed {error : DownloadError} {exit : ExitAnswers}
    (hfinalized : s.session.finalized = true) (htemp : s.disk.temp = true) (h : Counted s)
    (hok : (s.uncounted || !s.session.preserves) = false) :
    Reported (s.exitUnverified error exit) := by
  obtain ⟨hcounted, hkeeps⟩ := Bool.or_eq_false_iff.mp hok
  have hpreserves : s.session.preserves = true := by simpa using hkeeps
  apply reported_terminalError
  rw [leftBehind, TempSession.removesOnDrop, hfinalized, htemp, h.retained hcounted, hpreserves]
  rfl

/-- A deadline replaces the error and keeps what it reports. -/
theorem reported_report (h : Reported s) :
    Reported { s with point := .reported, result := s.result.map (rewriteDeadline s.deadline) } := by
  refine ⟨.inr rfl, fun err herr => ?_⟩
  obtain ⟨result, hresult, hrewrite⟩ := Option.map_eq_some_iff.mp herr
  cases result with
  | ok u => cases hrewrite
  | error before =>
    have hbefore := h.truthful before hresult
    cases before with
    | transfer e a =>
      cases hrewrite
      exact hbefore
    | infrastructure e a =>
      cases hrewrite
      exact hbefore
    | cancelled m a =>
      rw [rewriteDeadline] at hrewrite
      split at hrewrite <;>
      · cases hrewrite
        exact hbefore

/-- One event. -/
theorem artifact_step {e : JobEvent} (hi : ArtifactInv s) (hok : s.fault cfg e = false)
    (h : step cfg s e = some s') : ArtifactInv s' := by
  cases e with
  | setMode mode =>
    rw [← Option.some.inj h]
    exact hi.frame ⟨rfl, rfl, rfl, rfl, rfl⟩ rfl rfl
  | cancel =>
    rw [← Option.some.inj h]
    exact hi.frame ⟨rfl, rfl, rfl, rfl, rfl⟩ rfl rfl
  | deadlineExpires =>
    obtain ⟨-, rfl⟩ := ifEnabled_some h
    exact hi.frame ⟨rfl, rfl, rfl, rfl, rfl⟩ rfl rfl
  | admissionRejected active cap =>
    obtain ⟨hp, rfl⟩ := ifEnabled_at h
    refine ArtifactInv.of_reported ⟨.inl rfl, fun err herr => ?_⟩
    cases herr
    show _ = s.leftBehind false
    rw [leftBehind, earlier_eq_false hok]
    rfl
  | rejected error =>
    obtain ⟨hp, rfl⟩ := ifEnabled_at h
    exact ArtifactInv.of_reported (reported_exitBare hok)
  | beginProbe =>
    obtain ⟨hp, rfl⟩ := ifEnabled_at h
    rw [ArtifactInv, hp] at hi
    exact hi
  | probeCancelled =>
    obtain ⟨hp, rfl⟩ := ifEnabled_some h
    exact ArtifactInv.of_reported (reported_exitCancelledBare hok)
  | probeRefused error =>
    obtain ⟨hp, rfl⟩ := ifEnabled_at h
    split
    · exact ArtifactInv.of_reported (reported_exitCancelledBare hok)
    · exact ArtifactInv.of_reported (reported_exitBare hok)
  | probeFailed error =>
    obtain ⟨hp, rfl⟩ := ifEnabled_at h
    split
    · exact hi.frame ⟨rfl, rfl, rfl, rfl, rfl⟩ rfl rfl
    · next hd => exact ArtifactInv.of_reported (reported_exitBare (by simpa [fault, hd] using hok))
  | probed =>
    obtain ⟨hp, rfl⟩ := ifEnabled_at h
    rw [ArtifactInv, hp] at hi
    exact hi
  | unresolved error =>
    obtain ⟨hp, rfl⟩ := ifEnabled_at h
    exact ArtifactInv.of_reported (reported_exitBare hok)
  | admitted plan checkpoint =>
    obtain ⟨hp, rfl⟩ := ifEnabled_at h
    rw [ArtifactInv, hp] at hi
    have hsaved : s.checkpointSaved = false := hi
    refine ⟨fun hcounted => ?_, fun hresuming => ?_⟩
    · have hplan : (plan.hasCheckpoint || s.checkpointSaved) = true := hcounted
      rw [hsaved, Bool.or_false] at hplan
      show (plan.hasCheckpoint || checkpoint) = true
      rw [hplan, Bool.true_or]
    · cases plan with
      | fresh => cases hresuming
      | kept resuming => rfl
  | opened answer eligible =>
    obtain ⟨hp, rfl⟩ := ifEnabled_at h
    rw [ArtifactInv, hp] at hi
    exact artifact_openOutput hi.1 hi.2 hok
  | observeCancel exit =>
    obtain ⟨hp, rfl⟩ := ifEnabled_some h
    simp only [Bool.and_eq_true, decide_eq_true_eq] at hp
    exact ArtifactInv.of_reported (reported_exitCancelled (hi.sequential hp.1).toOpen hok)
  | refused error exit =>
    obtain ⟨hp, rfl⟩ := ifEnabled_at h
    simp only [fault] at hok
    split
    · next hc =>
      rw [if_pos hc] at hok
      exact ArtifactInv.of_reported (reported_exitCancelled (hi.sequential hp).toOpen hok)
    · next hc =>
      rw [if_neg hc] at hok
      exact ArtifactInv.of_reported (reported_exitAborted (hi.sequential hp).toOpen hok)
  | fatal error exit =>
    obtain ⟨hp, rfl⟩ := ifEnabled_at h
    exact ArtifactInv.of_reported (reported_exitAborted (hi.sequential hp).toOpen hok)
  | transferFailed error exit next =>
    obtain ⟨hp, rfl⟩ := ifEnabled_at h
    exact artifact_transferFails (hi.sequential hp) hok
  | bodyFailed error durable exit next =>
    obtain ⟨hp, rfl⟩ := ifEnabled_at h
    split
    · next hc =>
      have hfinal : s.cleanupFault exit = false := by simpa [fault, hc] using hok
      exact ArtifactInv.of_reported (reported_exitCancelled (hi.sequential hp).toOpen hfinal)
    · next hc => exact artifact_bodyFails (hi.sequential hp) hc hok
  | saved =>
    obtain ⟨hp, rfl⟩ := ifEnabled_at h
    have hs := hi.sequential hp
    exact ArtifactInv.of_sequential
      ⟨⟨hs.temp, hs.finalized, hs.aborted, fun _ => rfl⟩, hs.point⟩
  | saveFailed detail stored exit =>
    obtain ⟨hp, rfl⟩ := ifEnabled_at h
    exact ArtifactInv.of_reported (reported_saveFailed (hi.sequential hp).toOpen hok)
  | bodyEnded =>
    obtain ⟨hp, rfl⟩ := ifEnabled_at h
    have hs := hi.sequential hp
    exact (⟨hs.temp, hs.finalized, hs.aborted, hs.counted⟩ : Open { s with point := .assembled })
  | coordinatorSaved =>
    obtain ⟨hp, rfl⟩ := ifEnabled_at h
    rw [ArtifactInv, hp] at hi
    rw [ArtifactInv, show JobRun.point _ = .segmented from hp]
    exact ⟨⟨hi.1.temp, hi.1.finalized, hi.1.aborted, fun _ => rfl⟩, hi.2⟩
  | coordinatorSaveFailed stored =>
    obtain ⟨hp, rfl⟩ := ifEnabled_at h
    rw [ArtifactInv, hp] at hi
    rw [ArtifactInv, show JobRun.point _ = .segmented from hp]
    refine ⟨⟨hi.1.temp, hi.1.finalized, hi.1.aborted, fun hcounted => ?_⟩, hi.2⟩
    show (s.disk.checkpoint || stored) = true
    rw [hi.1.counted hcounted, Bool.true_or]
  | segmentedRefused error exit =>
    obtain ⟨hp, rfl⟩ := ifEnabled_at h
    rw [ArtifactInv, hp] at hi
    exact ArtifactInv.of_reported (reported_segmentedFails hi.1 hi.2 hok)
  | joined workerError reclaimError fatal complete exit =>
    obtain ⟨hp, rfl⟩ := ifEnabled_at h
    rw [ArtifactInv, hp] at hi
    exact artifact_join hi.1 hi.2 hok
  | verifyCancelled exit =>
    obtain ⟨hp, rfl⟩ := ifEnabled_some h
    simp only [Bool.and_eq_true, Bool.or_eq_true, decide_eq_true_eq] at hp
    refine ArtifactInv.of_reported (reported_exitUnverified ?_ hok)
    cases hp.1 with
    | inl hq => exact hi.complete hq rfl
    | inr hq => exact hi.complete hq rfl
  | beginVerify =>
    obtain ⟨hp, rfl⟩ := ifEnabled_some h
    simp only [Bool.and_eq_true, decide_eq_true_eq] at hp
    exact SameArtifacts.open (s := s) ⟨rfl, rfl, rfl, rfl, rfl⟩ (hi.complete hp.1 rfl)
  | verifyFailed error exit =>
    obtain ⟨hp, rfl⟩ := ifEnabled_at h
    exact ArtifactInv.of_reported (reported_exitUnverified (hi.complete hp rfl) hok)
  | beginCommit =>
    obtain ⟨hp, rfl⟩ := ifEnabled_some h
    simp only [Bool.and_eq_true, decide_eq_true_eq] at hp
    exact SameArtifacts.open (s := s) ⟨rfl, rfl, rfl, rfl, rfl⟩ (hi.complete hp.1 rfl)
  | finalizeFailed error exit =>
    obtain ⟨hp, rfl⟩ := ifEnabled_at h
    exact ArtifactInv.of_reported (reported_exitUnverified (hi.complete hp rfl) hok)
  | finalized =>
    obtain ⟨hp, rfl⟩ := ifEnabled_at h
    have hopen := hi.complete hp rfl
    exact ⟨rfl, hopen.temp, hopen.counted⟩
  | commitFailed error exit =>
    obtain ⟨hp, rfl⟩ := ifEnabled_at h
    rw [ArtifactInv, hp] at hi
    exact ArtifactInv.of_reported (reported_commitFailed hi.1 hi.2.1 hi.2.2 hok)
  | committed left exit =>
    obtain ⟨hp, rfl⟩ := ifEnabled_at h
    refine ArtifactInv.of_reported ⟨.inl rfl, fun err herr => ?_⟩
    cases herr
  | report =>
    obtain ⟨hp, rfl⟩ := ifEnabled_at h
    rw [ArtifactInv, hp] at hi
    exact ArtifactInv.of_reported (reported_report hi)

/-- **Artifacts.**  In every run without a fault, a job that fails or is cancelled
reports exactly what is left on disk. -/
theorem disposition_truthful {disk : JobDisk} {err : DownloadRunError}
    (h : Reach (step cfg) (fun s e => s.fault cfg e = false) (· = start disk) s)
    (hreported : s.point = .reported) (herr : s.result = some (.error err)) :
    err.artifacts.tempRetained = s.disk.temp ∧
      err.artifacts.checkpointRetained = s.disk.checkpoint := by
  have hinv : ArtifactInv s :=
    Reach.invariant (fun s₀ h₀ => h₀ ▸ rfl)
      (fun _ _ _ hi hok hstep => artifact_step hi hok hstep) h
  rw [ArtifactInv, hreported] at hinv
  rw [hinv.truthful err herr]
  exact ⟨rfl, rfl⟩

/-- A job that never resumes, beside the artifacts of an earlier run: its request
is tried again in a new file, and then it is cancelled. -/
def cancelledRestart : List JobEvent :=
  [.beginProbe, .probed, .admitted .fresh true, .opened .opened false,
    .transferFailed .connectTimeout ⟨true, true, true, true, false⟩ .opened, .cancel,
    .observeCancel ⟨true, true, true, true, false⟩, .report]

/-- The report is what is found on the disk. -/
theorem disposition_truthful_cancelledRestart :
    ∃ s err, runEvents (step ⟨true, true, true, 3⟩) (start ⟨true, true⟩) cancelledRestart
        = some s ∧ s.result = some (.error err) ∧
      err.artifacts.tempRetained = s.disk.temp ∧
      err.artifacts.checkpointRetained = s.disk.checkpoint := by
  refine ⟨_, _, rfl, rfl, ?_⟩
  have hok : runOk (step ⟨true, true, true, 3⟩)
      (fun s e => s.fault ⟨true, true, true, 3⟩ e = false) (start ⟨true, true⟩)
      cancelledRestart := by
    decide
  exact disposition_truthful (Reach.of_run (Reach.start rfl) hok rfl) rfl rfl

/-- A fresh job whose destination cannot be published. -/
def failedPublication : List JobEvent :=
  [.beginProbe, .probed, .admitted .fresh false, .opened .opened false, .bodyEnded,
    .beginVerify, .beginCommit, .finalized,
    .commitFailed (.commit "cannot publish") ⟨true, true, true, true, false⟩, .report]

/-- It reports that its temp file is gone; the file is still there. -/
theorem failed_publication_keeps_file :
    ∃ s err, runEvents (step ⟨false, false, false, 0⟩) (start ⟨false, false⟩)
        failedPublication = some s ∧
      s.point = .reported ∧ s.result = some (.error err) ∧
      err.artifacts.tempRetained = false ∧ s.disk.temp = true :=
  ⟨_, _, rfl, rfl, rfl, rfl, rfl⟩

end JobRun

end KDown
