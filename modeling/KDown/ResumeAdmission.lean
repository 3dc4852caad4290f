/-
KDown/ResumeAdmission.lean

Resume admission (resume/flow.rs).

A job that may resume loads its checkpoint, probes the server and then decides:
reject, restart from zero after deleting the stored state, or resume with the
recorded ranges.  The decision compares validators first, then the evidence
they give, then the temp file.

The store is its stored checkpoint together with its answer to a deletion: a
deletion that succeeds leaves nothing behind, one that fails leaves what was
there.

The checkpoint carries two sizes: its own `totalSize`, the size the job had
settled on, and the one inside its validators, the size one answer announced.
The decision reads the second only.  `finalize_sound_iff` says which checkpoints
are admitted as they should be:

    every check passes → the checkpoint has a range ∧ its own size agrees.

`runAdmission` is the whole flow: loading under the job's policy, then the decision.
-/
import KDown.Checkpoint

namespace KDown

/-! ### Decisions -/

/-- What the job asks for: never resume, resume when possible, or fail. -/
inductive ResumePolicy
  | never
  | allowed
  | required
  deriving DecidableEq, Repr

/-- A fact the controller publishes as an event. -/
inductive ResumeNotice
  | resourceChanged (detail : String)

/-- A rejected admission. -/
structure ResumeFailure where
  error : DownloadError
  notices : List ResumeNotice

/-- The admitted transfer plan. -/
structure ResumePlan where
  checkpoint : Option Checkpoint
  completedRanges : List ByteRange
  /-- Length of the completed range that starts at byte zero. -/
  contiguousPrefix : ℕ
  warnings : List String
  notices : List ResumeNotice

namespace ResumePlan

/-- The plan that starts at byte zero. -/
def fresh (warnings : List String) (notices : List ResumeNotice) : ResumePlan where
  checkpoint := none
  completedRanges := []
  contiguousPrefix := 0
  warnings := warnings
  notices := notices

/-- The plan that reuses the ranges of an admitted checkpoint. -/
def resuming (cp : Checkpoint) : ResumePlan where
  checkpoint := some cp
  completedRanges := cp.completedRanges
  contiguousPrefix :=
    match cp.completedRanges.head? with
    | some (s, e) => if s = 0 then min (e + 1) u64Max else 0
    | none => 0
  warnings := []
  notices := []

/-- The plan reuses bytes. -/
def isResuming (plan : ResumePlan) : Bool := !plan.completedRanges.isEmpty

end ResumePlan

/-- The answer of admission. -/
inductive AdmissionDecision
  | proceed (plan : ResumePlan)
  | reject (failure : ResumeFailure)

/-! ### The store -/

/-- What the store holds for the job, and how it answers a deletion. -/
structure AdmissionStore where
  stored : Option Checkpoint
  deletion : Except CheckpointError Unit

/-- Delete stale state before a restart; the store's state afterwards. -/
def deleteRestartState (store : AdmissionStore) :
    Except ResumeFailure Unit × Option Checkpoint :=
  match store.deletion with
  | .ok () => (.ok (), none)
  | .error e =>
      (.error ⟨.checkpoint s!"checkpoint cleanup failed: {e.message}", []⟩, store.stored)

/-! ### Loading -/

/-- What loading found: nothing to reuse, a readable checkpoint, or none where
one is required. -/
inductive AdmissionPieces
  | fresh (warnings : List String)
  | resuming (cp : Checkpoint)
  | requiredMissing

/-- Policy-aware loading.  `loaded` is the store's answer to a load. -/
def discoverAdmissionPieces (resume : ResumePolicy)
    (loaded : Except CheckpointError (Option Checkpoint)) (store : AdmissionStore) :
    Except ResumeFailure AdmissionPieces × Option Checkpoint :=
  match resume with
  | .never => (.ok (.fresh []), store.stored)
  | .allowed =>
      match loaded with
      | .ok (some cp) => (.ok (.resuming cp), store.stored)
      | .ok none => (.ok (.fresh []), store.stored)
      | .error e =>
          match deleteRestartState store with
          | (.error failure, after) => (.error failure, after)
          | (.ok (), after) =>
              (.ok (.fresh [s!"checkpoint unusable ({e.message}); restarting from zero"]), after)
  | .required =>
      match loaded with
      | .error e => (.error ⟨.checkpoint e.message, []⟩, store.stored)
      | .ok (some cp) => (.ok (.resuming cp), store.stored)
      | .ok none => (.ok .requiredMissing, store.stored)

/-- Phase one: loading before any network activity.  A required checkpoint that
is missing is a rejection. -/
def beginAdmission (resume : ResumePolicy) (loaded : Except CheckpointError (Option Checkpoint))
    (store : AdmissionStore) :
    Except ResumeFailure (Option Checkpoint × List String) × Option Checkpoint :=
  match discoverAdmissionPieces resume loaded store with
  | (.error failure, after) => (.error failure, after)
  | (.ok (.resuming cp), after) => (.ok (some cp, []), after)
  | (.ok (.fresh warnings), after) => (.ok (none, warnings), after)
  | (.ok .requiredMissing, after) =>
      (.error ⟨.checkpoint "resume required but no checkpoint", []⟩, after)

/-! ### Finalizing -/

variable (hash : List UInt8 → String)

/-- Regular, not a link, and linked once. -/
def validateOwnedRegularFile (tempPath : String) (entry : Option TempEntry) :
    Except DownloadError TempEntry :=
  match entry with
  | none => .error (.sinkOpen "No such file or directory (os error 2)")
  | some e =>
      if e.kind ≠ .regular then
        .error (.sinkOpen s!"partial output {tempPath} is not a regular file")
      else if 1 < e.links then
        .error (.sinkOpen s!"partial output {tempPath} has multiple hard links")
      else .ok e

/-- The temp file exists and plausibly covers the completed ranges. -/
def validateTempFile (cp : Checkpoint) (tempPath : String) (entry : Option TempEntry) :
    Except DownloadError Unit :=
  match validateOwnedRegularFile tempPath entry with
  | .error e => .error (.checkpoint e.message)
  | .ok e =>
      -- the last range has the largest end in a normalized list
      let needed := (cp.completedRanges.getLast?.map fun r => min (r.2 + 1) u64Max).getD 0
      if e.content.length < needed then
        .error (.checkpoint
          s!"temp file {tempPath} too small: {e.content.length} < {needed} required by completed ranges")
      else
        match cp.verifyLocalBinding hash tempPath entry with
        | .error reason => .error (.checkpoint reason)
        | .ok () => .ok ()

/-- A restart: the stored state is deleted first. -/
def restart (store : AdmissionStore) (warnings : List String) :
    AdmissionDecision × Option Checkpoint :=
  match deleteRestartState store with
  | (.error failure, after) => (.reject failure, after)
  | (.ok (), after) => (.proceed (.fresh warnings []), after)

/-- Finalize admission against the probed validators.  Returns the decision and
what the store holds afterwards. -/
def finalize (checkpoint : Option Checkpoint) (warnings : List String) (tempPath : String)
    (entry : Option TempEntry) (store : AdmissionStore) (remote : ResourceValidators) :
    AdmissionDecision × Option Checkpoint :=
  match checkpoint with
  | none => (.proceed (.fresh warnings []), store.stored)
  | some cp =>
      -- a contradiction is a rejection, missing evidence only a restart
      match cp.validators.sameGeneration remote with
      | .error _ =>
          (.reject ⟨.resourceChanged "resource changed since checkpoint",
            [.resourceChanged "validators differ from checkpoint"]⟩, store.stored)
      | .ok () =>
          match cp.validators.comparableGeneration remote with
          | .error reason =>
              restart store (warnings ++
                [s!"checkpoint not comparable ({reason}); restarting from zero"])
          | .ok () =>
              match validateTempFile hash cp tempPath entry with
              | .error e =>
                  restart store (warnings ++
                    [s!"checkpoint unusable ({e.message}); restarting from zero"])
              | .ok () => (.proceed (.resuming cp), store.stored)

/-! ### What is admitted -/

/-- Equal strong entity tags on both sides. -/
def EqualStrongTags (saved remote : ResourceValidators) : Prop :=
  ∃ tag, saved.etag = some tag ∧ remote.etag = some tag ∧
    saved.etagIsWeak = false ∧ remote.etagIsWeak = false

/-- No strong tag was saved, and the modification dates are equal. -/
def EqualDates (saved remote : ResourceValidators) : Prop :=
  ¬ (saved.etag.isSome ∧ saved.etagIsWeak = false) ∧
    ∃ date, saved.lastModified = some date ∧ remote.lastModified = some date

/-- Two recorded sizes do not contradict each other. -/
def SizesAgree (saved remote : Option ℕ) : Prop :=
  ∀ n m, saved = some n → remote = some m → n = m

/-- The evidence that lets a checkpoint be reused. -/
structure Admissible (cp : Checkpoint) (remote : ResourceValidators) (tempPath : String)
    (entry : Option TempEntry) : Prop where
  total : SizesAgree cp.totalSize remote.totalSize
  consistent : cp.validators.Consistent remote
  comparable : EqualStrongTags cp.validators remote ∨ EqualDates cp.validators remote
  long : ∃ e, entry = some e ∧
    ∀ r, cp.completedRanges.getLast? = some r → min (r.2 + 1) u64Max ≤ e.content.length
  bound : cp.verifyLocalBinding hash tempPath entry = .ok ()

/-- The three checks that the decision makes before it keeps a checkpoint. -/
structure ChecksPass (cp : Checkpoint) (remote : ResourceValidators) (tempPath : String)
    (entry : Option TempEntry) : Prop where
  same : cp.validators.sameGeneration remote = .ok ()
  comparable : cp.validators.comparableGeneration remote = .ok ()
  temp : validateTempFile hash cp tempPath entry = .ok ()

variable {hash}

theorem comparable_of_ok {saved remote : ResourceValidators} (hcons : saved.Consistent remote)
    (h : saved.comparableGeneration remote = .ok ()) :
    EqualStrongTags saved remote ∨ EqualDates saved remote := by
  rcases ResourceValidators.comparableGeneration_eq_ok.mp h with
    ⟨⟨hs, hw⟩, hs', hw'⟩ | ⟨hno, hs, hs'⟩
  · obtain ⟨tag, htag⟩ := Option.isSome_iff_exists.mp hs
    obtain ⟨tag', htag'⟩ := Option.isSome_iff_exists.mp hs'
    -- both sides have a strong tag, and the first comparison made them equal
    obtain rfl := hcons.etag _ _ htag htag'
    exact .inl ⟨tag, htag, htag', hw, hw'⟩
  · obtain ⟨date, hdate⟩ := Option.isSome_iff_exists.mp hs
    obtain ⟨date', hdate'⟩ := Option.isSome_iff_exists.mp hs'
    obtain rfl := hcons.lastModified _ _ hdate hdate'
    exact .inr ⟨hno, date, hdate, hdate'⟩

/-- **A temp file is valid** if it is there, is long enough and is the one that
was bound. -/
theorem validateTempFile_eq_ok {cp : Checkpoint} {tempPath : String} {entry : Option TempEntry}
    (h : validateTempFile hash cp tempPath entry = .ok ()) :
    (∃ e, entry = some e ∧
      ∀ r, cp.completedRanges.getLast? = some r → min (r.2 + 1) u64Max ≤ e.content.length) ∧
    cp.verifyLocalBinding hash tempPath entry = .ok () := by
  unfold validateTempFile at h
  rcases eo : validateOwnedRegularFile tempPath entry with err | e <;> rw [eo] at h
  · cases h
  have hentry : entry = some e := by
    unfold validateOwnedRegularFile at eo
    rcases entry with - | e'
    · cases eo
    · simp only at eo
      split_ifs at eo
      exact congrArg some (Except.ok.inj eo)
  simp only at h
  by_cases hlen : e.content.length <
      (cp.completedRanges.getLast?.map fun r => min (r.2 + 1) u64Max).getD 0
  · rw [if_pos hlen] at h; cases h
  rw [if_neg hlen] at h
  refine ⟨⟨e, hentry, fun r hr => ?_⟩, ?_⟩
  · rw [hr] at hlen
    exact not_lt.mp hlen
  · rcases eb : cp.verifyLocalBinding hash tempPath entry with reason | ⟨⟩
    · rw [eb] at h; cases h
    · rfl

/-- The outcomes that reuse nothing: a rejection with the store untouched, or a
fresh plan after a successful deletion. -/
def NothingReused (store : AdmissionStore) (outcome : AdmissionDecision × Option Checkpoint) :
    Prop :=
  (∃ failure, outcome = (.reject failure, store.stored)) ∨
    ∃ warnings, outcome = (.proceed (.fresh warnings []), none) ∧ store.deletion = .ok ()

theorem restart_nothingReused (store : AdmissionStore) (warnings : List String) :
    NothingReused store (restart store warnings) := by
  unfold NothingReused restart deleteRestartState
  rcases store.deletion with e | ⟨⟩
  · exact .inl ⟨_, rfl⟩
  · exact .inr ⟨warnings, rfl, rfl⟩

/-- What the checks establish.  The checkpoint's own size is not among it. -/
theorem ChecksPass.admissible {cp : Checkpoint} {remote : ResourceValidators}
    {tempPath : String} {entry : Option TempEntry} (h : ChecksPass hash cp remote tempPath entry)
    (htotal : SizesAgree cp.totalSize remote.totalSize) :
    Admissible hash cp remote tempPath entry := by
  have hcons := ResourceValidators.sameGeneration_eq_ok.mp h.same
  obtain ⟨hlong, hbound⟩ := validateTempFile_eq_ok h.temp
  exact ⟨htotal, hcons, comparable_of_ok hcons h.comparable, hlong, hbound⟩

/-- A checkpoint that passes every check is kept, and the store with it. -/
theorem finalize_of_checksPass {cp : Checkpoint} {remote : ResourceValidators}
    {tempPath : String} {entry : Option TempEntry} (h : ChecksPass hash cp remote tempPath entry)
    (warnings : List String) (store : AdmissionStore) :
    finalize hash (some cp) warnings tempPath entry store remote =
      (.proceed (.resuming cp), store.stored) := by
  simp only [finalize, h.same, h.comparable, h.temp]

/-- A checkpoint that fails a check is not reused. -/
theorem finalize_of_not_checksPass {cp : Checkpoint} {remote : ResourceValidators}
    {tempPath : String} {entry : Option TempEntry}
    (h : ¬ ChecksPass hash cp remote tempPath entry) (warnings : List String)
    (store : AdmissionStore) :
    NothingReused store (finalize hash (some cp) warnings tempPath entry store remote) := by
  unfold finalize
  rcases e₁ : cp.validators.sameGeneration remote with detail | ⟨⟩ <;> simp only [e₁]
  · exact .inl ⟨_, rfl⟩
  rcases e₂ : cp.validators.comparableGeneration remote with reason | ⟨⟩ <;> simp only
  · exact restart_nothingReused store _
  rcases e₃ : validateTempFile hash cp tempPath entry with err | ⟨⟩ <;> simp only
  · exact restart_nothingReused store _
  · exact absurd ⟨e₁, e₂, e₃⟩ h

/-- The outcome hands out a plan with ranges. -/
def Reuses (outcome : AdmissionDecision × Option Checkpoint) : Prop :=
  ∃ plan, outcome.1 = .proceed plan ∧ plan.completedRanges ≠ []

/-- Neither a rejection nor a fresh plan has ranges. -/
theorem NothingReused.not_reuses {store : AdmissionStore}
    {outcome : AdmissionDecision × Option Checkpoint} (h : NothingReused store outcome) :
    ¬ Reuses outcome := by
  rintro ⟨plan, hplan, hne⟩
  rcases h with ⟨failure, rfl⟩ | ⟨warnings, rfl, -⟩
  · cases hplan
  · cases hplan
    exact hne rfl

/-- A kept checkpoint is reused as soon as it has a range. -/
theorem reuses_resuming_iff (cp : Checkpoint) (after : Option Checkpoint) :
    Reuses (.proceed (.resuming cp), after) ↔ cp.completedRanges ≠ [] := by
  constructor
  · rintro ⟨plan, hplan, hne⟩
    cases hplan
    exact hne
  · exact fun hne => ⟨.resuming cp, rfl, hne⟩

/-- Keeping a checkpoint is neither a rejection nor a fresh plan. -/
theorem not_nothingReused_resuming (store : AdmissionStore) (cp : Checkpoint)
    (after : Option Checkpoint) : ¬ NothingReused store (.proceed (.resuming cp), after) := by
  rintro (⟨failure, h⟩ | ⟨warnings, h, -⟩)
  · cases h
  · cases h

/-- **Admission.**  A plan with ranges only for an admissible checkpoint, and
every other outcome a rejection that leaves the store alone or a fresh plan
after a deletion: this holds unless a checkpoint passes every check although it
has no range, or although its own total size is not the remote one. -/
theorem finalize_sound_iff (hash : List UInt8 → String) (cp : Checkpoint)
    (warnings : List String) (tempPath : String) (entry : Option TempEntry)
    (store : AdmissionStore) (remote : ResourceValidators) :
    let outcome := finalize hash (some cp) warnings tempPath entry store remote
    ((Reuses outcome → Admissible hash cp remote tempPath entry) ∧
        (¬ Reuses outcome → NothingReused store outcome)) ↔
      (ChecksPass hash cp remote tempPath entry →
        cp.completedRanges ≠ [] ∧ SizesAgree cp.totalSize remote.totalSize) := by
  intro outcome
  by_cases hpass : ChecksPass hash cp remote tempPath entry
  · have heq : outcome = (.proceed (.resuming cp), store.stored) :=
      finalize_of_checksPass hpass warnings store
    rw [heq, reuses_resuming_iff]
    constructor
    · rintro ⟨hadm, hother⟩ -
      have hne : cp.completedRanges ≠ [] := by
        intro hnil
        exact not_nothingReused_resuming store cp _ (hother fun hne => hne hnil)
      exact ⟨hne, (hadm hne).total⟩
    · intro h
      obtain ⟨hne, htotal⟩ := h hpass
      exact ⟨fun _ => hpass.admissible htotal, fun hno => absurd hne hno⟩
  · have hnone : NothingReused store outcome :=
      finalize_of_not_checksPass hpass warnings store
    exact iff_of_true ⟨fun hr => absurd hr hnone.not_reuses, fun _ => hnone⟩
      fun hp => absurd hp hpass

/-- Four bytes of an eight-byte resource were saved while its answers announced
no length.  Later the resource has the same date and nine bytes, and the four
bytes are reused. -/
theorem stale_total_reused :
    ¬ ∀ (hash : List UInt8 → String) (cp : Checkpoint) (warnings : List String)
        (tempPath : String) (entry : Option TempEntry) (store : AdmissionStore)
        (remote : ResourceValidators),
      (Reuses (finalize hash (some cp) warnings tempPath entry store remote) →
        Admissible hash cp remote tempPath entry) ∧
      (¬ Reuses (finalize hash (some cp) warnings tempPath entry store remote) →
        NothingReused store (finalize hash (some cp) warnings tempPath entry store remote)) := by
  intro h
  let entry : TempEntry :=
    { kind := .regular, dev := 1, ino := 7, links := 1, readable := true,
      content := [1, 2, 3, 4] }
  let cp : Checkpoint :=
    { formatVersion := 2, jobId := "job", tempPathIdentity := "out.part",
      ownedTempIdentity := ownedTempIdentity "out.part" (some entry),
      coveredDigest := coveredDigest (fun _ => "d") (some entry) [(0, 3)], totalSize := some 8,
      validators := ⟨none, false, some "Mon, 01 Jan 2024 00:00:00 GMT", none⟩,
      completedRanges := [(0, 3)], expectedHashes := [], createdAt := "0", updatedAt := "0" }
  let remote : ResourceValidators :=
    ⟨none, false, some "Mon, 01 Jan 2024 00:00:00 GMT", some 9⟩
  obtain ⟨hreuse, -⟩ := h (fun _ => "d") cp [] "out.part" (some entry) ⟨some cp, .ok ()⟩ remote
  have hbound : cp.verifyLocalBinding (fun _ => "d") "out.part" (some entry) = .ok () :=
    (Checkpoint.verifyLocalBinding_eq_ok _).mpr ⟨.inr rfl, .inr rfl⟩
  have htemp : validateTempFile (fun _ => "d") cp "out.part" (some entry) = .ok () := by
    have howned : validateOwnedRegularFile "out.part" (some entry) = .ok entry := rfl
    have hlong : ¬ entry.content.length <
        (cp.completedRanges.getLast?.map fun r => min (r.2 + 1) u64Max).getD 0 := by decide
    simp only [validateTempFile, howned, if_neg hlong, hbound]
  have hkept : finalize (fun _ => "d") (some cp) [] "out.part" (some entry)
      ⟨some cp, .ok ()⟩ remote = (.proceed (.resuming cp), some cp) :=
    finalize_of_checksPass ⟨rfl, rfl, htemp⟩ [] ⟨some cp, .ok ()⟩
  have hadm := hreuse (by rw [hkept]; exact ⟨.resuming cp, rfl, List.cons_ne_nil _ _⟩)
  exact absurd (hadm.total 8 9 rfl rfl) (by decide)

/-! ### The whole flow -/

/-- Both phases: load under the policy, then decide against the probe. -/
def runAdmission (hash : List UInt8 → String) (resume : ResumePolicy)
    (loaded : Except CheckpointError (Option Checkpoint)) (tempPath : String)
    (entry : Option TempEntry) (store : AdmissionStore) (remote : ResourceValidators) :
    AdmissionDecision × Option Checkpoint :=
  match beginAdmission resume loaded store with
  | (.error failure, after) => (.reject failure, after)
  | (.ok (checkpoint, warnings), after) =>
      finalize hash checkpoint warnings tempPath entry ⟨after, store.deletion⟩ remote

/-- A job that never resumes starts at zero, and its stored state stays. -/
theorem runAdmission_never (hash : List UInt8 → String)
    (loaded : Except CheckpointError (Option Checkpoint)) (tempPath : String)
    (entry : Option TempEntry) (store : AdmissionStore) (remote : ResourceValidators) :
    runAdmission hash .never loaded tempPath entry store remote =
      (.proceed (.fresh [] []), store.stored) := rfl

/-- Only a checkpoint that was loaded reaches the decision, and a load leaves
the store as it was. -/
theorem beginAdmission_some {resume : ResumePolicy}
    {loaded : Except CheckpointError (Option Checkpoint)} {store : AdmissionStore}
    {cp : Checkpoint} {warnings : List String} {after : Option Checkpoint}
    (h : beginAdmission resume loaded store = (.ok (some cp, warnings), after)) :
    resume ≠ .never ∧ loaded = .ok (some cp) ∧ after = store.stored := by
  unfold beginAdmission discoverAdmissionPieces deleteRestartState at h
  rcases resume with - | - | -
  · cases h
  · rcases loaded with e | - | cp'
    · rcases hd : store.deletion with e' | ⟨⟩ <;> simp [hd] at h
    · cases h
    · cases h
      exact ⟨by decide, rfl, rfl⟩
  · rcases loaded with e | - | cp' <;> cases h
    exact ⟨by decide, rfl, rfl⟩

/-- **The flow.**  Ranges are handed out only to a job that may resume, and
only those of the checkpoint it loaded, which passed every check. -/
theorem runAdmission_reuses {resume : ResumePolicy}
    {loaded : Except CheckpointError (Option Checkpoint)} {tempPath : String}
    {entry : Option TempEntry} {store : AdmissionStore} {remote : ResourceValidators}
    (h : Reuses (runAdmission hash resume loaded tempPath entry store remote)) :
    resume ≠ .never ∧ ∃ cp, loaded = .ok (some cp) ∧
      ChecksPass hash cp remote tempPath entry ∧
      runAdmission hash resume loaded tempPath entry store remote =
        (.proceed (.resuming cp), store.stored) := by
  unfold runAdmission at h ⊢
  rcases hb : beginAdmission resume loaded store with ⟨failure | ⟨checkpoint, warnings⟩, after⟩ <;>
    simp only [hb] at h ⊢
  · obtain ⟨plan, hplan, -⟩ := h
    cases hplan
  rcases checkpoint with - | cp
  · -- nothing was loaded: the plan is fresh
    obtain ⟨plan, hplan, hne⟩ := h
    cases hplan
    exact absurd rfl hne
  · obtain ⟨hnever, hloaded, rfl⟩ := beginAdmission_some hb
    by_cases hpass : ChecksPass hash cp remote tempPath entry
    · exact ⟨hnever, cp, hloaded, hpass, finalize_of_checksPass hpass _ _⟩
    · exact absurd h (finalize_of_not_checksPass hpass _ _).not_reuses

end KDown
