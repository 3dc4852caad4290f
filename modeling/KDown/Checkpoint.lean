/-
KDown/Checkpoint.lean

Checkpoints and their binding to the temp file (resume/checkpoint.rs).

A checkpoint records which ranges of the temp file are finished.  It is bound
to the file by an owned identity (path, device, inode) and by a digest of the
first covered bytes; `verifyLocalBinding` compares both with the entry now at
the path.

The digest is a parameter `hash` from byte strings to text.  What it is taken
over is not: `windowBytes` reads the listed ranges in order, up to one
mebibyte, and fails when the file is too short.
-/
import KDown.Validators
import KDown.Errors

namespace KDown

/-! ### Checkpoints -/

/-- Errors of checkpoint validation and storage. -/
inductive CheckpointError
  | unsupportedVersion (found known : ℕ)
  | corrupt (detail : String)
  | inconsistent (detail : String)
  | tooLarge (size cap : ℕ)
  | overflow
  deriving DecidableEq, Repr

/-- The text of an error. -/
def CheckpointError.message : CheckpointError → String
  | .unsupportedVersion found known =>
      s!"checkpoint format version {found} not supported (known up to {known})"
  | .corrupt d => s!"checkpoint corrupt: {d}"
  | .inconsistent d => s!"checkpoint inconsistent: {d}"
  | .tooLarge size cap => s!"checkpoint size {size} exceeds the configured budget {cap}"
  | .overflow => "checkpoint size estimate overflowed"

/-- Caller-provided digest persisted for resume verification. -/
structure ExpectedDigest where
  algorithm : String
  hex : String
  deriving DecidableEq, Repr

/-- Persisted resumable state. -/
structure Checkpoint where
  formatVersion : ℕ
  jobId : String
  tempPathIdentity : String
  /-- Owned identity of the temp file object the ranges describe. -/
  ownedTempIdentity : Option String
  /-- Bounded digest over the covered bytes. -/
  coveredDigest : Option String
  totalSize : Option ℕ
  validators : ResourceValidators
  completedRanges : List ByteRange
  expectedHashes : List ExpectedDigest
  createdAt : String
  updatedAt : String
  deriving DecidableEq, Repr

/-! ### Validation and size -/

/-- The version this store writes and reads. -/
def checkpointFormatVersion : ℕ := 2

/-- The ranges must be ordered and apart; `prevEnd` is the end of the one
before. -/
def validateRanges : Option ℕ → List ByteRange → Except CheckpointError Unit
  | _, [] => .ok ()
  | prevEnd, (start, stop) :: rest =>
      if stop < start then
        .error (.inconsistent s!"range [{start}, {stop}] has end < start")
      else
        match prevEnd with
        | some pe =>
            if start ≤ pe then
              .error (.inconsistent
                s!"range [{start}, {stop}] overlaps or precedes previous end {pe}")
            else validateRanges (some stop) rest
        | none => validateRanges (some stop) rest

/-- Structural validation. -/
def Checkpoint.validate (cp : Checkpoint) : Except CheckpointError Unit :=
  if cp.formatVersion ≠ checkpointFormatVersion then
    .error (.unsupportedVersion cp.formatVersion checkpointFormatVersion)
  else if cp.jobId.isEmpty then .error (.inconsistent "empty job_id")
  else
    match validateRanges none cp.completedRanges with
    | .error e => .error e
    | .ok () =>
        match cp.totalSize, cp.completedRanges.getLast? with
        | some total, some (_, lastEnd) =>
            if total ≤ lastEnd then
              .error (.inconsistent s!"range end {lastEnd} exceeds total size {total}")
            else .ok ()
        | _, _ => .ok ()

/-- A 64-bit result, or the overflow of the size estimate. -/
def checkedSize (n : ℕ) : Except CheckpointError ℕ :=
  if n < 2 ^ 64 then .ok n else .error .overflow

/-- Worst-case cost of a JSON string: every byte escaped, and two quotes. -/
def jsonString (len : ℕ) : Except CheckpointError ℕ := checkedSize (len * 6 + 2)

/-- The allowance of an optional string. -/
def jsonOptionalString : Option String → Except CheckpointError ℕ
  | some v => jsonString v.utf8ByteSize
  | none => .ok 4

/-- The costs that are added up, in the order of the source. -/
def Checkpoint.serializedCosts (cp : Checkpoint) : List (Except CheckpointError ℕ) :=
  [jsonString cp.tempPathIdentity.utf8ByteSize, jsonString cp.createdAt.utf8ByteSize,
    jsonString cp.updatedAt.utf8ByteSize, jsonOptionalString cp.ownedTempIdentity,
    jsonOptionalString cp.coveredDigest, jsonOptionalString cp.validators.etag,
    jsonOptionalString cp.validators.lastModified,
    .ok (if cp.validators.etagIsWeak then 4 else 5), .ok 20,
    checkedSize (cp.completedRanges.length * 48)] ++
  cp.expectedHashes.flatMap fun digest =>
    [jsonString digest.algorithm.utf8ByteSize, jsonString digest.hex.utf8ByteSize, .ok 64]

/-- Upper bound of the serialized size. -/
def Checkpoint.checkedSerializedSize (cp : Checkpoint) : Except CheckpointError ℕ :=
  cp.serializedCosts.foldlM
    (fun total cost => cost.bind fun value => checkedSize (total + value)) 512

/-- Refuse a checkpoint whose estimate exceeds the budget. -/
def Checkpoint.checkSerializedWithin (cp : Checkpoint) (cap : ℕ) : Except CheckpointError ℕ :=
  match cp.checkedSerializedSize with
  | .error e => .error e
  | .ok estimate => if cap < estimate then .error (.tooLarge estimate cap) else .ok estimate

/-! ### The temp entry -/

/-- The type of a directory entry. -/
inductive EntryKind
  | regular
  | symlink
  | other
  deriving DecidableEq, Repr

/-- What the directory holds at the temp path, and what reading it yields. -/
structure TempEntry where
  kind : EntryKind
  dev : ℕ
  ino : ℕ
  links : ℕ
  readable : Bool
  content : List UInt8
  deriving DecidableEq, Repr

/-- Covered bytes hashed into a checkpoint: one mebibyte. -/
def coveredDigestWindow : ℕ := 1024 * 1024

/-- The bytes of the ranges, in order, up to a budget; `none` when a read runs
past the end of the file. -/
def windowBytes (content : List UInt8) : ℕ → List ByteRange → Option (List UInt8)
  | _, [] => some []
  -- the budget is used up: later ranges are not even opened
  | 0, _ :: _ => some []
  | budget, (start, stop) :: rest =>
      if stop < start then windowBytes content budget rest
      else
        let len := min (stop - start + 1) budget
        if content.length < start + len then none
        else (windowBytes content (budget - len) rest).map
          fun bytes => (content.drop start).take len ++ bytes

/-- The covered bytes of an entry; `none` when nothing was covered or a read
failed. -/
def coveredBytes (entry : Option TempEntry) (ranges : List ByteRange) : Option (List UInt8) :=
  if ranges.isEmpty then none
  else entry.bind fun e =>
    if e.readable then windowBytes e.content coveredDigestWindow ranges else none

/-- Digest over the covered bytes. -/
def coveredDigest (hash : List UInt8 → String) (entry : Option TempEntry)
    (ranges : List ByteRange) : Option String :=
  -- two range lists with the same first mebibyte have the same digest
  (coveredBytes entry ranges).map hash

/-- Owned identity of a temp file object. -/
def ownedTempIdentity (tempPath : String) (entry : Option TempEntry) : Option String :=
  entry.bind fun e =>
    if e.kind = .regular then some s!"{tempPath}|{e.dev}:{e.ino}" else none

namespace Checkpoint

variable (hash : List UInt8 → String)

/-- The identity of the temp file is recorded. -/
def setOwnedTempIdentity (cp : Checkpoint) (tempPath : String) (entry : Option TempEntry) :
    Checkpoint :=
  { cp with ownedTempIdentity := KDown.ownedTempIdentity tempPath entry }

/-- The digest of the completed ranges is recorded. -/
def setCoveredDigest (cp : Checkpoint) (entry : Option TempEntry) : Checkpoint :=
  { cp with coveredDigest := KDown.coveredDigest hash entry cp.completedRanges }

/-- Compare a recorded text with the one computed now. -/
def checkEvidence (recorded actual : Option String) (unavailable mismatch : String) :
    Except String Unit :=
  match recorded with
  | none => .ok ()
  | some expected =>
      match actual with
      | none => .error unavailable
      | some actual => if actual = expected then .ok () else .error mismatch

/-- Verify the local binding against the entry at the temp path.  Missing
evidence is no error; mismatched evidence is. -/
def verifyLocalBinding (cp : Checkpoint) (tempPath : String) (entry : Option TempEntry) :
    Except String Unit :=
  match checkEvidence cp.ownedTempIdentity (KDown.ownedTempIdentity tempPath entry)
      "temp identity unavailable" "owned temp identity mismatch" with
  | .error reason => .error reason
  | .ok () =>
      checkEvidence cp.coveredDigest (KDown.coveredDigest hash entry cp.completedRanges)
        "covered digest unavailable" "covered-byte digest mismatch"

/-- The recorded digest, if any, is the one of the recorded ranges. -/
def Bound (cp : Checkpoint) (entry : Option TempEntry) : Prop :=
  cp.coveredDigest = none ∨
    KDown.coveredDigest hash entry cp.completedRanges = cp.coveredDigest

/-- The recorded identity, if any, is the one of the entry. -/
def Identified (cp : Checkpoint) (tempPath : String) (entry : Option TempEntry) : Prop :=
  cp.ownedTempIdentity = none ∨ KDown.ownedTempIdentity tempPath entry = cp.ownedTempIdentity

theorem checkEvidence_eq_ok {recorded actual : Option String} (unavailable mismatch : String) :
    checkEvidence recorded actual unavailable mismatch = .ok () ↔
      recorded = none ∨ actual = recorded := by
  unfold checkEvidence
  rcases recorded with - | r <;> rcases actual with - | a <;> simp

/-- The binding check succeeds exactly when both pieces of evidence fit. -/
theorem verifyLocalBinding_eq_ok {cp : Checkpoint} {tempPath : String}
    {entry : Option TempEntry} :
    cp.verifyLocalBinding hash tempPath entry = .ok () ↔
      cp.Identified tempPath entry ∧ cp.Bound hash entry := by
  unfold verifyLocalBinding Identified Bound
  rw [← checkEvidence_eq_ok "temp identity unavailable" "owned temp identity mismatch",
    ← checkEvidence_eq_ok "covered digest unavailable" "covered-byte digest mismatch"]
  rcases e : checkEvidence cp.ownedTempIdentity (KDown.ownedTempIdentity tempPath entry)
    "temp identity unavailable" "owned temp identity mismatch" with reason | ⟨⟩ <;> simp

end Checkpoint

end KDown
