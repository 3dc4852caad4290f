/-
KDown/Publish.lean

Completion of a verified output (job/controller.rs `complete_verified_output`)
down to its publication (io/sink.rs, io/publish.rs).

The session writes through an open handle; publication names the temp file by
its path.  `publishVerified` ties the two together: it is given the identity
(device and inode) of the open handle and refuses a temp path that names
anything else.  `commitWithPolicy` takes the identity from the sink's handle,
and passes none when there is no handle.  `complete_verified_output` calls
`finalize` first, and `finalize` closes the handle.

So the completion is modelled with all its steps, and between any two of them
the entry at the temp path may be replaced.  Identities are those of Unix; the
time between the check and the atomic operation is left to the trusted
directory, as the source documents.
-/
import KDown.Errors
import KDown.Runs

namespace KDown

/-! ### Directory entries -/

/-- A file object: device and inode. -/
structure OutputIdentity where
  dev : ℕ
  ino : ℕ
  deriving DecidableEq, Repr

/-- The type of a directory entry. -/
inductive FileType
  | regular
  | symlink
  | other
  deriving DecidableEq, Repr

/-- What a directory entry names, without following it. -/
structure EntryMetadata where
  identity : OutputIdentity
  fileType : FileType
  deriving DecidableEq, Repr

/-- The entry is the file that was opened. -/
def OutputIdentity.matches (expected : OutputIdentity) (entry : EntryMetadata) : Bool :=
  entry.identity.dev = expected.dev && entry.identity.ino = expected.ino

/-- The two entries a publication works on. -/
structure OutputDir where
  tempPath : String
  destination : String
  temp : Option EntryMetadata
  dest : Option EntryMetadata
  deriving DecidableEq, Repr

/-- An error of a file-system call. -/
inductive IoError
  | notFound
  | alreadyExists
  | other (detail : String)
  deriving DecidableEq, Repr

/-- The text of an error of the file system. -/
def IoError.message : IoError → String
  | .notFound => "No such file or directory (os error 2)"
  | .alreadyExists => "File exists (os error 17)"
  | .other detail => detail

/-! ### Publication -/

/-- Whether an existing destination is replaced. -/
inductive PublishMode
  | noReplace
  | replace
  deriving DecidableEq, Repr

/-- What the caller wants of an existing destination. -/
inductive OverwritePolicy
  | failIfExists
  | replace
  | resumeIfMatching
  | rename
  deriving DecidableEq, Repr

/-- The mode of publication under a policy. -/
def publicationMode : OverwritePolicy → PublishMode
  | .failIfExists => .noReplace
  | .replace => .replace
  | .resumeIfMatching => .replace
  | .rename => .noReplace

/-- How the file system answers the calls of a publication. -/
structure PublicationOps where
  /-- Failure of the rename or of the hard link. -/
  publishFailure : Option IoError
  /-- Failure to remove the temp name after a hard link. -/
  removeFailure : Option IoError
  deriving DecidableEq, Repr

namespace OutputDir

/-- Atomic replacement of the destination by the temp entry. -/
def rename (d : OutputDir) (ops : PublicationOps) : Except IoError OutputDir :=
  match d.temp, ops.publishFailure with
  | none, _ => .error .notFound
  | some _, some e => .error e
  | some entry, none => .ok { d with temp := none, dest := some entry }

/-- A second name for the temp entry; fails if the destination exists. -/
def hardLink (d : OutputDir) (ops : PublicationOps) : Except IoError OutputDir :=
  match d.temp, d.dest, ops.publishFailure with
  | none, _, _ => .error .notFound
  | some _, some _, _ => .error .alreadyExists
  | some _, none, some e => .error e
  | some entry, none, none => .ok { d with dest := some entry }

/-- Remove the temp name once the destination is published; a failure is only a
warning. -/
def unlinkTemp (d : OutputDir) (ops : PublicationOps) : OutputDir × Option String :=
  match ops.removeFailure with
  | some e =>
      (d, some (s!"published {d.destination} but could not remove temporary file "
        ++ s!"{d.tempPath}: {e.message}"))
  | none => ({ d with temp := none }, none)

/-- Publish the temp file under the destination, with a warning where its own
name stayed. -/
def publishWithOps (d : OutputDir) (ops : PublicationOps) :
    PublishMode → Except IoError (OutputDir × Option String)
  -- a rename replaces, a hard link does not
  | .replace => (d.rename ops).map fun d' => (d', none)
  | .noReplace => (d.hardLink ops).map fun d' => d'.unlinkTemp ops

/-- Refuse a temp entry that is not the expected file. -/
def checkIdentity (d : OutputDir) : Option OutputIdentity → Except IoError Unit
  -- without an identity there is nothing to compare
  | none => .ok ()
  | some expected =>
      match d.temp with
      | none => .error .notFound
      | some entry =>
          if entry.fileType ≠ .regular then
            .error (.other s!"temporary output {d.tempPath} is no longer a regular file")
          else if !expected.matches entry then
            .error (.other s!"temporary output {d.tempPath} changed after verification")
          else .ok ()

/-- Publish the temp entry after checking it against the verified identity. -/
def publishVerified (d : OutputDir) (ops : PublicationOps) (mode : PublishMode)
    (identity : Option OutputIdentity) : Except IoError (OutputDir × Option String) :=
  (d.checkIdentity identity).bind fun _ => d.publishWithOps ops mode

theorem rename_dest {d d' : OutputDir} {ops : PublicationOps} (h : d.rename ops = .ok d') :
    d'.dest = d.temp := by
  unfold rename at h
  split at h <;> cases h
  rename_i htemp _
  exact htemp.symm

theorem hardLink_dest {d d' : OutputDir} {ops : PublicationOps} (h : d.hardLink ops = .ok d') :
    d'.dest = d.temp := by
  unfold hardLink at h
  split at h <;> cases h
  rename_i htemp _ _
  exact htemp.symm

theorem unlinkTemp_dest (d : OutputDir) (ops : PublicationOps) :
    (d.unlinkTemp ops).1.dest = d.dest := by
  unfold unlinkTemp
  split <;> rfl

/-- A publication that succeeds leaves at the destination what the temp path
named. -/
theorem publishWithOps_dest {d d' : OutputDir} {ops : PublicationOps} {mode : PublishMode}
    {warning : Option String} (h : d.publishWithOps ops mode = .ok (d', warning)) :
    d'.dest = d.temp := by
  cases mode with
  | replace =>
    simp only [publishWithOps] at h
    rcases hr : d.rename ops with e | d₁ <;> rw [hr] at h <;> cases h
    exact rename_dest hr
  | noReplace =>
    simp only [publishWithOps] at h
    rcases hl : d.hardLink ops with e | d₁ <;> rw [hl] at h
    · cases h
    · have hu : d₁.unlinkTemp ops = (d', warning) := Except.ok.inj h
      rw [← hardLink_dest hl, ← unlinkTemp_dest d₁ ops, hu]

/-- The atomic operation goes through when there is a temp entry, no call fails,
and a publication that may not replace finds no destination. -/
theorem publishWithOps_isOk {d : OutputDir} {ops : PublicationOps} {mode : PublishMode} :
    (∃ outcome, d.publishWithOps ops mode = .ok outcome) ↔
      d.temp.isSome ∧ ops.publishFailure = none ∧ (mode = .noReplace → d.dest = none) := by
  -- both operations are decided by the two entries and the answer
  cases mode with
  | replace =>
    rcases htemp : d.temp with _ | entry <;> rcases hops : ops.publishFailure with _ | e <;>
      simp [publishWithOps, rename, htemp, hops, Except.map]
  | noReplace =>
    rcases htemp : d.temp with _ | entry <;> rcases hdest : d.dest with _ | entry' <;>
      rcases hops : ops.publishFailure with _ | e <;>
      simp [publishWithOps, hardLink, htemp, hdest, hops, Except.map]

/-- The check passes only for the expected regular file. -/
theorem checkIdentity_some {d : OutputDir} {expected : OutputIdentity} :
    d.checkIdentity (some expected) = .ok () ↔ d.temp = some ⟨expected, .regular⟩ := by
  rcases hd : d.temp with _ | ⟨⟨dev, ino⟩, fileType⟩
  · simp [checkIdentity, hd]
  · cases expected
    cases fileType <;> simp [checkIdentity, hd, OutputIdentity.matches]

end OutputDir

/-! ### The sink -/

/-- The sink's open handle and whether it was finalized. -/
structure FileSink where
  file : Option OutputIdentity
  finalized : Bool
  deriving DecidableEq, Repr

namespace FileSink

/-- Synchronize and close. -/
def finalize (s : FileSink) (flushFailure : Option DownloadError) :
    Except DownloadError FileSink :=
  match s.file, flushFailure with
  | none, _ => .error (.sinkWrite "sink closed")
  | some _, some e => .error e
  -- the handle is gone from here on
  | some _, none => .ok { file := none, finalized := true }

/-- Publish under the identity of the open handle, if there is one. -/
def commitWithPolicy (s : FileSink) (d : OutputDir) (ops : PublicationOps) (mode : PublishMode) :
    Except DownloadError (OutputDir × Option String) :=
  match d.publishVerified ops mode s.file with
  | .ok outcome => .ok outcome
  | .error e =>
      -- the destination appeared between the check of the request and now
      if mode = .noReplace ∧ e = .alreadyExists then
        .error (.destinationConflict
          s!"destination appeared before no-replace publication ({d.destination}): {e.message}")
      else .error (.commit e.message)

theorem finalize_file {s s' : FileSink} {flushFailure : Option DownloadError}
    (h : s.finalize flushFailure = .ok s') : s'.file = none := by
  unfold finalize at h
  split at h <;> cases h
  rfl

theorem commitWithPolicy_eq_ok {s : FileSink} {d : OutputDir} {ops : PublicationOps}
    {mode : PublishMode} {outcome : OutputDir × Option String} :
    s.commitWithPolicy d ops mode = .ok outcome ↔
      d.publishVerified ops mode s.file = .ok outcome := by
  unfold commitWithPolicy
  rcases d.publishVerified ops mode s.file with e | outcome'
  · simp only [reduceCtorEq, iff_false]
    split_ifs <;> simp
  · simp

/-- With its handle still open, a sink publishes only its own file. -/
theorem commitWithPolicy_open {s : FileSink} {own : OutputIdentity} {d d' : OutputDir}
    {ops : PublicationOps} {mode : PublishMode} {warning : Option String}
    (hopen : s.file = some own) (h : s.commitWithPolicy d ops mode = .ok (d', warning)) :
    d'.dest = some ⟨own, .regular⟩ := by
  rw [commitWithPolicy_eq_ok, hopen, OutputDir.publishVerified] at h
  rcases hcheck : d.checkIdentity (some own) with e | ⟨⟩ <;> rw [hcheck] at h
  · cases h
  · rw [OutputDir.publishWithOps_dest h]
    exact OutputDir.checkIdentity_some.mp hcheck

end FileSink

/-! ### Completion -/

/-- What a completion is started with. -/
structure CompletionConfig where
  overwrite : OverwritePolicy
  totalSize : Option ℕ
  /-- Acknowledged accepted coverage of the job. -/
  acceptedBytes : ℕ
  hashesExpected : Bool
  /-- The file the session has open for writing. -/
  own : OutputIdentity
  tempPath : String
  destination : String
  /-- The entry at the destination, if any. -/
  dest : Option EntryMetadata
  /-- Write handles still lent out. -/
  writersAlive : Option ℕ

/-- Where the completion of a download stands. -/
inductive CompletionPhase
  | sizing
  | hashing
  | committing
  | finalized
  | published (warning : Option String)
  | failed (error : DownloadError)

/-- The completion, with its sink and the two entries. -/
structure CompletionState where
  phase : CompletionPhase
  sink : FileSink
  shared : Option ℕ
  dir : OutputDir

/-- The steps of a completion with the answers they get, and the replacement of
the entry at the temp path. -/
inductive CompletionEvent
  | replaceTemp (entry : Option EntryMetadata)
  | checkSize (cancelled : Option DownloadError) (size : Except DownloadError ℕ)
      (truncateFailure : Option DownloadError)
  | verifyHashes (failure : Option DownloadError)
  | finalize (cancelled flushFailure : Option DownloadError)
  | commit (ops : PublicationOps)

/-- The refusal of a session that has lent capabilities. -/
def sharedSessionError : DownloadError :=
  .protocol "output session is shared with worker handles"

namespace CompletionState

variable (cfg : CompletionConfig)

/-- The completion fails. -/
def fail (s : CompletionState) (e : DownloadError) : CompletionState :=
  { s with phase := .failed e }

/-- The size of the output; the session must be exclusive and open. -/
def size (s : CompletionState) (answer : Except DownloadError ℕ) : Except DownloadError ℕ :=
  if s.shared.isSome then .error sharedSessionError
  else if s.sink.file.isNone then .error (.sinkOpen "sink closed")
  else answer

/-- Compare the size with what is expected; an output of unknown length is cut
to its acknowledged end. -/
def checkLength (size : ℕ) (truncateFailure : Option DownloadError) : Except DownloadError Unit :=
  match cfg.totalSize with
  | some expected =>
      if cfg.acceptedBytes ≠ expected ∨ size ≠ expected then
        .error (.integrityMismatch (s!"size mismatch: acknowledged {cfg.acceptedBytes}, "
          ++ s!"got {size}, expected {expected}"))
      else .ok ()
  | none =>
      if size ≠ cfg.acceptedBytes then
        match truncateFailure with
        | some e => .error e
        | none => .ok ()
      else .ok ()

/-- The check of the final size, unless the job is cancelled. -/
def checkSize (s : CompletionState) (cancelled : Option DownloadError)
    (size : Except DownloadError ℕ) (truncateFailure : Option DownloadError) : CompletionState :=
  match cancelled with
  | some e => s.fail e
  | none =>
      match (s.size size).bind fun n => checkLength cfg n truncateFailure with
      | .error e => s.fail e
      | .ok () => { s with phase := if cfg.hashesExpected then .hashing else .committing }

/-- Synchronize and close the sink, unless the job was cancelled. -/
def finalize (s : CompletionState) (cancelled flushFailure : Option DownloadError) :
    CompletionState :=
  match cancelled with
  | some e => s.fail e
  | none =>
      if s.shared.isSome then s.fail sharedSessionError
      else
        match s.sink.finalize flushFailure with
        | .error e => s.fail e
        | .ok sink => { s with phase := .finalized, sink := sink }

/-- Publish the output under the request's overwrite policy. -/
def commit (s : CompletionState) (ops : PublicationOps) : CompletionState :=
  if s.shared.any (0 < ·) then s.fail sharedSessionError
  else
    match s.sink.commitWithPolicy s.dir ops (publicationMode cfg.overwrite) with
    | .error e => s.fail e
    | .ok (dir, warning) => { s with phase := .published warning, dir := dir }

end CompletionState

/-- One event of a completion. -/
def completionStep (cfg : CompletionConfig) (s : CompletionState) :
    CompletionEvent → Option CompletionState
  | .replaceTemp entry => some { s with dir := { s.dir with temp := entry } }
  | .checkSize cancelled size truncateFailure =>
      match s.phase with
      | .sizing => some (s.checkSize cfg cancelled size truncateFailure)
      | _ => none
  | .verifyHashes failure =>
      match s.phase with
      | .hashing =>
          match failure with
          | some e => some (s.fail e)
          | none => some { s with phase := .committing }
      | _ => none
  | .finalize cancelled flushFailure =>
      match s.phase with
      | .committing => some (s.finalize cancelled flushFailure)
      | _ => none
  | .commit ops =>
      match s.phase with
      | .finalized => some (s.commit cfg ops)
      | _ => none

/-- A completion at its start: the last write is done and the temp path names
the session's file. -/
def completionInit (cfg : CompletionConfig) : CompletionState where
  phase := .sizing
  sink := ⟨some cfg.own, false⟩
  shared := cfg.writersAlive
  dir := ⟨cfg.tempPath, cfg.destination, some ⟨cfg.own, .regular⟩, cfg.dest⟩

/-! ### What is published -/

namespace CompletionState

variable {cfg : CompletionConfig} {s t : CompletionState}

/-- Publication is bound to the session's file: what was published is that
file, and as long as nothing was published the destination is as it was. -/
def Bound (cfg : CompletionConfig) (s : CompletionState) : Prop :=
  match s.phase with
  | .published _ => s.dir.dest = some ⟨cfg.own, .regular⟩
  | _ => s.dir.dest = cfg.dest

/-- If the atomic operation of a commit goes through, the temp path still names
the session's file (or nothing). -/
def keepsTemp (cfg : CompletionConfig) (s : CompletionState) : CompletionEvent → Prop
  | .commit ops =>
      ops.publishFailure = none →
      (publicationMode cfg.overwrite = .noReplace → s.dir.dest = none) →
      s.dir.temp = none ∨ s.dir.temp = some ⟨cfg.own, .regular⟩
  | _ => True

instance (s : CompletionState) (e : CompletionEvent) : Decidable (s.keepsTemp cfg e) := by
  unfold keepsTemp
  split <;> infer_instance

/-- Nothing was published so far; a finalized sink is closed and exclusive. -/
structure Unpublished (cfg : CompletionConfig) (s : CompletionState) : Prop where
  phase : ∀ warning, s.phase ≠ .published warning
  dest : s.dir.dest = cfg.dest
  closed : s.phase = .finalized → s.sink.file = none ∧ s.shared = none

theorem Unpublished.bound (h : s.Unpublished cfg) : s.Bound cfg := by
  unfold Bound
  split
  · rename_i warning hphase
    exact absurd hphase (h.phase warning)
  · exact h.dest

theorem Unpublished.fail (h : s.Unpublished cfg) (e : DownloadError) :
    (s.fail e).Unpublished cfg :=
  ⟨fun _ => nofun, h.dest, nofun⟩

theorem Unpublished.checkSize (h : s.Unpublished cfg) (cancelled : Option DownloadError)
    (size : Except DownloadError ℕ) (truncateFailure : Option DownloadError) :
    (s.checkSize cfg cancelled size truncateFailure).Unpublished cfg := by
  unfold CompletionState.checkSize
  split
  · exact h.fail _
  · split
    · exact h.fail _
    · refine ⟨fun _ hp => ?_, h.dest, fun hp => ?_⟩ <;>
        · simp only at hp
          split_ifs at hp

/-- **Finalizing publishes nothing.** -/
theorem Unpublished.finalize (h : s.Unpublished cfg)
    (cancelled flushFailure : Option DownloadError) :
    (s.finalize cancelled flushFailure).Unpublished cfg := by
  unfold CompletionState.finalize
  split
  · exact h.fail _
  split_ifs with hshared
  · exact h.fail _
  · rcases hfin : s.sink.finalize flushFailure with e | sink
    · exact h.fail e
    · -- finalizing closes the handle the identity would come from
      exact ⟨fun _ => nofun, h.dest, fun _ =>
        ⟨FileSink.finalize_file hfin, by simpa using hshared⟩⟩

/-- A commit after `finalize` passes no identity: it publishes whatever the temp
path names, exactly when the atomic operation goes through. -/
theorem Unpublished.commit (h : s.Unpublished cfg) (hfinal : s.phase = .finalized)
    (ops : PublicationOps) :
    (∃ entry warning dir, s.dir.temp = some entry ∧ ops.publishFailure = none ∧
      (publicationMode cfg.overwrite = .noReplace → s.dir.dest = none) ∧
      dir.dest = some entry ∧
      s.commit cfg ops = { s with phase := .published warning, dir := dir }) ∨
    ((∃ e, s.commit cfg ops = s.fail e) ∧
      ¬ (s.dir.temp.isSome ∧ ops.publishFailure = none ∧
        (publicationMode cfg.overwrite = .noReplace → s.dir.dest = none))) := by
  obtain ⟨hfile, hshared⟩ := h.closed hfinal
  -- the sink is closed, so the check is skipped
  have hcommit : ∀ outcome, s.sink.commitWithPolicy s.dir ops (publicationMode cfg.overwrite)
      = .ok outcome ↔ s.dir.publishWithOps ops (publicationMode cfg.overwrite) = .ok outcome := by
    intro outcome
    rw [FileSink.commitWithPolicy_eq_ok, hfile]
    rfl
  unfold CompletionState.commit
  rw [hshared, if_neg (by simp)]
  rcases hres : s.sink.commitWithPolicy s.dir ops (publicationMode cfg.overwrite)
    with e | ⟨dir, warning⟩
  · refine .inr ⟨⟨e, rfl⟩, fun hgo => ?_⟩
    obtain ⟨outcome, hout⟩ := OutputDir.publishWithOps_isOk.mpr hgo
    rw [(hcommit outcome).mpr hout] at hres
    cases hres
  · have hout := (hcommit _).mp hres
    obtain ⟨htemp, hops, hdest⟩ := OutputDir.publishWithOps_isOk.mp ⟨_, hout⟩
    obtain ⟨entry, hentry⟩ := Option.isSome_iff_exists.mp htemp
    exact .inl ⟨entry, warning, dir, hentry, hops, hdest,
      (OutputDir.publishWithOps_dest hout).trans hentry, rfl⟩

/-- The entry was published. -/
def Published (s : CompletionState) (entry : EntryMetadata) : Prop :=
  (∃ warning, s.phase = .published warning) ∧ s.dir.dest = some entry

/-- **What was published is bound exactly if it is the session's own file.** -/
theorem Published.bound_iff {entry : EntryMetadata} (h : s.Published entry) :
    s.Bound cfg ↔ entry = ⟨cfg.own, .regular⟩ := by
  obtain ⟨⟨warning, hphase⟩, hdest⟩ := h
  simp only [Bound, hphase, hdest, Option.some.injEq]

/-- One step before publication: nothing is published yet, or the step is the
commit that publishes what the temp path names. -/
theorem Unpublished.step {e : CompletionEvent} (h : s.Unpublished cfg)
    (hstep : completionStep cfg s e = some t) :
    (t.Unpublished cfg ∧ s.keepsTemp cfg e) ∨
      ∃ entry, t.Published entry ∧ (s.keepsTemp cfg e ↔ entry = ⟨cfg.own, .regular⟩) := by
  cases e with
  | replaceTemp entry =>
    cases hstep
    exact .inl ⟨⟨h.phase, h.dest, h.closed⟩, trivial⟩
  | checkSize cancelled size truncateFailure =>
    simp only [completionStep] at hstep
    split at hstep <;> cases hstep
    exact .inl ⟨h.checkSize cancelled size truncateFailure, trivial⟩
  | verifyHashes failure =>
    simp only [completionStep] at hstep
    split at hstep
    · rcases failure with _ | e <;> cases hstep
      · exact .inl ⟨⟨fun _ => nofun, h.dest, nofun⟩, trivial⟩
      · exact .inl ⟨h.fail e, trivial⟩
    · cases hstep
  | finalize cancelled flushFailure =>
    simp only [completionStep] at hstep
    split at hstep <;> cases hstep
    exact .inl ⟨h.finalize cancelled flushFailure, trivial⟩
  | commit ops =>
    simp only [completionStep] at hstep
    split at hstep <;> cases hstep
    rename_i hfinal
    rcases h.commit hfinal ops with
      ⟨entry, warning, dir, htemp, hops, hdest, hdir, hcommit⟩ | ⟨⟨e, hfail⟩, hstop⟩
    · refine .inr ⟨entry, hcommit ▸ ⟨⟨warning, rfl⟩, hdir⟩, ?_⟩
      simp only [keepsTemp, htemp, reduceCtorEq, false_or, Option.some.injEq]
      exact ⟨fun hkeep => hkeep hops hdest, fun he _ _ => he⟩
    · refine .inl ⟨hfail ▸ h.fail e, fun hops hdest => .inl ?_⟩
      -- the operation failed although neither reason applies: no temp entry
      by_contra htemp
      exact hstop ⟨Option.isSome_iff_ne_none.mpr htemp, hops, hdest⟩

/-- After publication only the temp entry can still change. -/
theorem Published.step {entry : EntryMetadata} {e : CompletionEvent} (h : s.Published entry)
    (hstep : completionStep cfg s e = some t) : t.Published entry ∧ s.keepsTemp cfg e := by
  obtain ⟨⟨warning, hphase⟩, hdest⟩ := h
  cases e <;> simp only [completionStep, hphase] at hstep <;> cases hstep
  exact ⟨⟨⟨warning, rfl⟩, hdest⟩, trivial⟩

theorem Published.run {entry : EntryMetadata} {es : List CompletionEvent} (h : s.Published entry)
    (hrun : runEvents (completionStep cfg) s es = some t) :
    t.Published entry ∧ runOk (completionStep cfg) (fun s e => s.keepsTemp cfg e) s es := by
  induction es generalizing s with
  | nil => exact ⟨Option.some.inj hrun ▸ h, trivial⟩
  | cons e es ih =>
    obtain ⟨u, hu, hrest⟩ := Option.bind_eq_some_iff.mp hrun
    obtain ⟨hpub, hok⟩ := h.step hu
    obtain ⟨ht, hrestok⟩ := ih hpub hrest
    refine ⟨ht, hok, fun u' hu' => ?_⟩
    rw [hu] at hu'
    exact Option.some.inj hu' ▸ hrestok

theorem Unpublished.run {es : List CompletionEvent} (h : s.Unpublished cfg)
    (hrun : runEvents (completionStep cfg) s es = some t) :
    t.Bound cfg ↔ runOk (completionStep cfg) (fun s e => s.keepsTemp cfg e) s es := by
  -- once something is published the rest of the run is inert
  induction es generalizing s with
  | nil => exact ⟨fun _ => trivial, fun _ => Option.some.inj hrun ▸ h.bound⟩
  | cons e es ih =>
    obtain ⟨u, hu, hrest⟩ := Option.bind_eq_some_iff.mp hrun
    simp only [runOk, hu, Option.mem_some_iff, forall_eq']
    rcases h.step hu with ⟨hunpub, hok⟩ | ⟨entry, hpub, hok⟩
    · exact (ih hunpub hrest).trans ⟨fun hr => ⟨hok, hr⟩, And.right⟩
    · -- the rest of the run cannot change what was published
      obtain ⟨ht, hrestok⟩ := hpub.run hrest
      rw [ht.bound_iff, hok]
      exact ⟨fun he => ⟨he, hrestok⟩, And.left⟩

theorem unpublished_init (cfg : CompletionConfig) : (completionInit cfg).Unpublished cfg :=
  ⟨fun _ => nofun, rfl, nofun⟩

end CompletionState

/-- **What a completion publishes.**  Whatever happens between the steps, a
completion is bound to the session's file if and only if, at the commit whose
atomic operation goes through, the temp path still names that file. -/
theorem completion_bound_iff (cfg : CompletionConfig) (es : List CompletionEvent)
    (s : CompletionState)
    (hrun : runEvents (completionStep cfg) (completionInit cfg) es = some s) :
    s.Bound cfg ↔
      runOk (completionStep cfg) (fun s e => s.keepsTemp cfg e) (completionInit cfg) es :=
  (CompletionState.unpublished_init cfg).run hrun

/-! ### A replaced temp file -/

/-- A verified 8-byte output that replaces an existing destination. -/
def replacingOutput : CompletionConfig where
  overwrite := .replace
  totalSize := some 8
  acceptedBytes := 8
  hashesExpected := true
  own := ⟨1, 10⟩
  tempPath := "out.bin.part"
  destination := "out.bin"
  dest := some ⟨⟨1, 5⟩, .regular⟩
  writersAlive := none

/-- All steps succeed; the temp entry becomes `entry` before the commit. -/
def completionWith (entry : EntryMetadata) : List CompletionEvent :=
  [.checkSize none (.ok 8) none, .verifyHashes none, .finalize none none,
    .replaceTemp (some entry), .commit ⟨none, none⟩]

/-- The job publishes its own file. -/
theorem completion_bound_own_file :
    ∃ s, runEvents (completionStep replacingOutput) (completionInit replacingOutput)
        (completionWith ⟨⟨1, 10⟩, .regular⟩) = some s ∧
      s.phase = .published none ∧ s.Bound replacingOutput := by
  have hend : ((runEvents (completionStep replacingOutput) (completionInit replacingOutput)
      (completionWith ⟨⟨1, 10⟩, .regular⟩)).map fun s => s.phase) = some (.published none) := by
    rfl
  obtain ⟨s, hrun, hphase⟩ := Option.map_eq_some_iff.mp hend
  exact ⟨s, hrun, hphase, (completion_bound_iff replacingOutput _ s hrun).mpr (by decide)⟩

/-- A symlink put in the place of the temp file after verification is published
over the old destination, and the completion reports success. -/
theorem replaced_temp_published :
    ¬ ∀ (cfg : CompletionConfig) (es : List CompletionEvent) (s : CompletionState),
      runEvents (completionStep cfg) (completionInit cfg) es = some s → s.Bound cfg := by
  intro h
  have hend : ((runEvents (completionStep replacingOutput) (completionInit replacingOutput)
      (completionWith ⟨⟨1, 66⟩, .symlink⟩)).map fun s => (s.phase, s.dir.dest)) =
        some (.published none, some ⟨⟨1, 66⟩, .symlink⟩) := by rfl
  obtain ⟨s, hrun, hs⟩ := Option.map_eq_some_iff.mp hend
  obtain ⟨hphase, hdest⟩ := Prod.mk.inj hs
  have hbound := h replacingOutput _ s hrun
  simp only [CompletionState.Bound, hphase, hdest] at hbound
  exact absurd hbound (by decide)

end KDown
