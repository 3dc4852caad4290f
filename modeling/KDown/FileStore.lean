/-
KDown/FileStore.lean

The sidecar-file checkpoint store (resume/checkpoint_store.rs, unix build).

A save writes a temp entry of its own, syncs it, renames it over the sidecar
and syncs the directory; a delete unlinks the sidecar.  Each system call is a
step, any number of saves and deletes of one process run at the same time,
every call may fail, and the machine may crash between any two of them.

JSON is written and parsed outside the repository, so it is a parameter
(`Serde`) with the law that what was written parses back.  The URLs of a
checkpoint are never serialized and are no part of the model.

A file is named by the number of the save that created it.  Besides what the
program has, the state records when things happened (`renamedAt`,
`returnedAt`, `startedAt`, `doneAt`, `syncedAt`): times are only written.
-/
import KDown.Checkpoint
import KDown.CrashDisk
import KDown.Runs
import KDown.Sequential

namespace KDown

/-! ### Entries -/

/-- The temp name of a save. -/
structure TempName where
  jobId : String
  pid : ℕ
  seq : ℕ
  deriving DecidableEq, Repr

/-- The entries of the store's directory. -/
inductive StoreEntry
  | sidecar (jobId : String)
  | temp (name : TempName)
  deriving DecidableEq, Repr

/-- The file name of an entry. -/
def StoreEntry.fileName : StoreEntry → String
  | .sidecar jobId => s!"{jobId}.kdown"
  | .temp name => s!"{name.jobId}.{name.pid}.{name.seq}.tmp"

/-- The text after the last dot is read off. -/
theorem dotted_inj {x x' y y' : List Char} (hy : '.' ∉ y) (hy' : '.' ∉ y')
    (h : x ++ '.' :: y = x' ++ '.' :: y') : x = x' ∧ y = y' := by
  rcases List.append_eq_append_iff.mp h with ⟨z, hx, hz⟩ | ⟨z, hx, hz⟩ <;>
    rcases z with - | ⟨c, z⟩
  · rw [List.append_nil] at hx
    exact ⟨hx.symm, List.tail_eq_of_cons_eq hz⟩
  · rw [List.tail_eq_of_cons_eq hz] at hy
    simp at hy
  · rw [List.append_nil] at hx
    exact ⟨hx, (List.tail_eq_of_cons_eq hz).symm⟩
  · rw [List.tail_eq_of_cons_eq hz] at hy'
    simp at hy'

theorem dot_notMem_toDigits (n : ℕ) : '.' ∉ Nat.toDigits 10 n := by
  intro h
  have hdigit := Nat.isDigit_of_mem_toDigits (by decide) (by decide) h
  cases hdigit

theorem toDigits_inj {m n : ℕ} (h : Nat.toDigits 10 m = Nat.toDigits 10 n) : m = n := by
  have hread := congrArg (fun cs => Nat.ofDigitChars 10 cs 0) h
  simpa only [Nat.ofDigitChars_toDigits (b := 10) (by decide) (by decide)] using hread

namespace StoreEntry

theorem toList_fileName (entry : StoreEntry) :
    entry.fileName.toList =
      match entry with
      | .sidecar jobId => jobId.toList ++ '.' :: ['k', 'd', 'o', 'w', 'n']
      | .temp name =>
          ((name.jobId.toList ++ '.' :: Nat.toDigits 10 name.pid) ++
            '.' :: Nat.toDigits 10 name.seq) ++ '.' :: ['t', 'm', 'p'] := by
  rcases entry with jobId | ⟨jobId, pid, seq⟩
  · simp only [fileName, String.toList_append]
    rfl
  · simp only [fileName, String.toList_append, Nat.toString_eq_repr, Nat.toList_repr]
    simp [toString]

/-- Distinct entries have distinct file names, whatever the job identities are. -/
theorem fileName_injective : Function.Injective fileName := by
  intro a b h
  have h := congrArg String.toList h
  rw [toList_fileName, toList_fileName] at h
  rcases a with j | ⟨j, pid, seq⟩ <;> rcases b with j' | ⟨j', pid', seq'⟩
  · obtain ⟨hj, -⟩ := dotted_inj (by decide) (by decide) h
    rw [String.toList_inj.mp hj]
  · -- the extensions differ
    obtain ⟨-, hext⟩ := dotted_inj (by decide) (by decide) h
    cases hext
  · obtain ⟨-, hext⟩ := dotted_inj (by decide) (by decide) h
    cases hext
  · obtain ⟨hstem, -⟩ := dotted_inj (by decide) (by decide) h
    obtain ⟨hstem, hseq⟩ := dotted_inj (dot_notMem_toDigits _) (dot_notMem_toDigits _) hstem
    obtain ⟨hj, hpid⟩ := dotted_inj (dot_notMem_toDigits _) (dot_notMem_toDigits _) hstem
    obtain rfl : j = j' := String.toList_inj.mp hj
    obtain rfl : pid = pid' := toDigits_inj hpid
    obtain rfl : seq = seq' := toDigits_inj hseq
    rfl

end StoreEntry

/-! ### Serialization -/

/-- The JSON library, and the text of a failed UTF-8 conversion. -/
structure Serde where
  toText : Checkpoint → Except String String
  fromText : String → Except String Checkpoint
  utf8Error : ByteArray → String
  /-- What was written parses back. -/
  roundTrip : ∀ cp json, toText cp = .ok json → fromText json = .ok cp

namespace Serde

/-- Serialize, if the library can. -/
def toJson (serde : Serde) (cp : Checkpoint) : Except CheckpointError String :=
  match serde.toText cp with
  | .ok json => .ok json
  | .error e => .error (.corrupt e)

/-- Parse and validate. -/
def fromJson (serde : Serde) (json : String) : Except CheckpointError Checkpoint :=
  match serde.fromText json with
  | .error e => .error (.corrupt e)
  | .ok cp =>
      match cp.validate with
      | .error e => .error e
      | .ok () => .ok cp

end Serde

/-! ### The store -/

/-- The configuration of a store. -/
structure StoreConfig where
  serde : Serde
  durability : DurabilityMode
  dir : String
  maxSerializedBytes : Option ℕ

/-- What a failed system call reports; a failed write has stored some bytes. -/
structure IoFault where
  detail : String
  written : ℕ

/-- The next system call of a save. -/
inductive SavePhase
  | create
  | write
  | flush
  | syncFile
  | rename
  | openDir
  | syncDir
  /-- The save failed after it had created its temp entry. -/
  | cleanUp (error : CheckpointError)
  | returned (result : Except CheckpointError Unit)
  /-- The process died. -/
  | killed

/-- A call of `save`, with what it has done. -/
structure SaveRun where
  checkpoint : Checkpoint
  json : String
  temp : TempName
  phase : SavePhase
  renamedAt : Option ℕ
  returnedAt : Option ℕ

/-- Where a call of `delete` stands. -/
inductive DeletePhase
  | unlink
  | returned (result : Except CheckpointError Unit)
  | killed

/-- A call of `delete`, with what it has done. -/
structure DeleteRun where
  jobId : String
  phase : DeletePhase
  startedAt : ℕ
  /-- When it found the sidecar gone, or removed it. -/
  doneAt : Option ℕ
  /-- It removed an entry. -/
  removed : Bool

/-- The disk, the calls on the store, and the clock. -/
structure StoreState where
  disk : CrashDisk StoreEntry ℕ ByteArray
  pid : ℕ
  /-- The process-wide temp-file sequence. -/
  seq : ℕ
  saves : ℕ → Option SaveRun
  deletes : ℕ → Option DeleteRun
  /-- The number of calls so far. -/
  calls : ℕ
  clock : ℕ
  /-- When the directory was last synced. -/
  syncedAt : ℕ

/-- A call begins or goes on, or the process crashes. -/
inductive StoreEvent
  | save (checkpoint : Checkpoint)
  | saveStep (call : ℕ) (fault : Option IoFault)
  | delete (jobId : String)
  | unlink (call : ℕ) (fault : Option IoFault)
  /-- Another process, with another number, goes on after the crash. -/
  | crash (pick : StoreEntry → ℕ) (torn : ℕ → ByteArray) (pid : ℕ)

namespace StoreConfig

variable (cfg : StoreConfig)

/-- The path of an entry. -/
def path (entry : StoreEntry) : String := s!"{cfg.dir}/{entry.fileName}"

theorem path_injective : Function.Injective cfg.path := by
  intro a b h
  have h := congrArg String.toList h
  simp only [path, String.toList_append] at h
  exact StoreEntry.fileName_injective (String.toList_inj.mp (List.append_cancel_left h))

/-- The text to be written, within the budget before and after serialization. -/
def prepare (cp : Checkpoint) : Except CheckpointError String :=
  match cfg.maxSerializedBytes with
  | none => cfg.serde.toJson cp
  | some cap =>
      match cp.checkSerializedWithin cap with
      | .error e => .error e
      | .ok _ =>
          match cfg.serde.toJson cp with
          | .error e => .error e
          | .ok json =>
              if cap < json.utf8ByteSize then .error (.tooLarge json.utf8ByteSize cap)
              else .ok json

/-- The check of the sidecar's metadata: an oversized one is refused.  The
store creates regular files only. -/
def refuses (content : Option ByteArray) : Option CheckpointError :=
  match content, cfg.maxSerializedBytes with
  | some bytes, some cap => if cap < bytes.size then some (.tooLarge bytes.size cap) else none
  | _, _ => none

/-- Decode what was read. -/
def decode : Option ByteArray → Except CheckpointError (Option Checkpoint)
  | none => .ok none
  | some bytes =>
      match String.fromUTF8? bytes with
      | none => .error (.corrupt s!"checkpoint not utf-8: {cfg.serde.utf8Error bytes}")
      | some json => (cfg.serde.fromJson json).map some

/-- Load a checkpoint; `seen` is the disk when the metadata is looked at, `disk`
when the content is read. -/
def load (seen disk : CrashDisk StoreEntry ℕ ByteArray) (jobId : String) :
    Except CheckpointError (Option Checkpoint) :=
  match cfg.refuses (seen.read (.sidecar jobId)) with
  | some e => .error e
  | none => cfg.decode (disk.read (.sidecar jobId))

end StoreConfig

namespace StoreState

/-- The save moves on. -/
def setSave (s : StoreState) (call : ℕ) (r : SaveRun) : StoreState :=
  { s with saves := Function.update s.saves call (some r) }

/-- A save goes on to its next call, over a new disk. -/
def proceed (s : StoreState) (call : ℕ) (r : SaveRun) (phase : SavePhase)
    (disk : CrashDisk StoreEntry ℕ ByteArray) : StoreState :=
  { s with disk := disk }.setSave call { r with phase := phase }

/-- The save returns. -/
def returnSave (s : StoreState) (call : ℕ) (r : SaveRun)
    (result : Except CheckpointError Unit) (disk : CrashDisk StoreEntry ℕ ByteArray) :
    StoreState :=
  { s with disk := disk }.setSave call
    { r with phase := .returned result, returnedAt := some s.clock }

/-- A save fails after it has created its temp entry. -/
def failSave (s : StoreState) (call : ℕ) (r : SaveRun) (detail : String)
    (disk : CrashDisk StoreEntry ℕ ByteArray) : StoreState :=
  s.proceed call r (.cleanUp (.corrupt detail)) disk

/-- The next system call of a save, and its outcome. -/
def saveStep (cfg : StoreConfig) (s : StoreState) (call : ℕ) (r : SaveRun)
    (fault : Option IoFault) : Option StoreState :=
  let temp := StoreEntry.temp r.temp
  let sidecar := StoreEntry.sidecar r.checkpoint.jobId
  match r.phase, fault with
  | .create, none =>
      -- creation is exclusive
      if (s.disk.entries temp).isSome then none
      else some (s.proceed call r .write (s.disk.create temp call .empty))
  | .create, some f =>
      some (s.returnSave call r
        (.error (.corrupt s!"create {cfg.path temp}: {f.detail}")) s.disk)
  | .write, none => some (s.proceed call r .flush (s.disk.write call r.json.toUTF8))
  | .write, some f =>
      some (s.failSave call r s!"write: {f.detail}"
        (s.disk.write call (r.json.toUTF8.extract 0 f.written)))
  | .flush, none =>
      some (s.proceed call r (if cfg.durability = .durable then .syncFile else .rename) s.disk)
  | .flush, some f => some (s.failSave call r s!"flush: {f.detail}" s.disk)
  | .syncFile, none => some (s.proceed call r .rename (s.disk.syncFile call))
  | .syncFile, some f => some (s.failSave call r s!"fsync checkpoint: {f.detail}" s.disk)
  | .rename, none =>
      let r := { r with renamedAt := some s.clock }
      let disk := s.disk.rename temp sidecar
      some (if cfg.durability = .durable then s.proceed call r .openDir disk
        else s.returnSave call r (.ok ()) disk)
  | .rename, some f =>
      some (s.failSave call r s!"rename {cfg.path temp} -> {cfg.path sidecar}: {f.detail}" s.disk)
  | .openDir, none => some (s.proceed call r .syncDir s.disk)
  | .openDir, some f =>
      some (s.failSave call r s!"open checkpoint directory {cfg.dir}: {f.detail}" s.disk)
  | .syncDir, none =>
      some { s.returnSave call r (.ok ()) s.disk.syncDir with syncedAt := s.clock }
  | .syncDir, some f =>
      some (s.failSave call r s!"fsync checkpoint directory {cfg.dir}: {f.detail}" s.disk)
  -- best effort: a failed removal is ignored
  | .cleanUp e, none => some (s.returnSave call r (.error e) (s.disk.unlink temp))
  | .cleanUp e, some _ => some (s.returnSave call r (.error e) s.disk)
  | .returned _, _ => none
  | .killed, _ => none

/-- The system call of a delete. -/
def unlinkStep (s : StoreState) (call : ℕ) (d : DeleteRun) (fault : Option IoFault) :
    Option StoreState :=
  match d.phase, fault with
  | .unlink, some f =>
      some { s with
        deletes := Function.update s.deletes call
          (some { d with phase := .returned (.error (.corrupt s!"delete: {f.detail}")) }) }
  | .unlink, none =>
      let removed := (s.disk.entries (.sidecar d.jobId)).isSome
      -- no sync of the directory follows
      some { s with
        disk := if removed then s.disk.unlink (.sidecar d.jobId) else s.disk
        deletes := Function.update s.deletes call
          (some { d with
            phase := .returned (.ok ()), doneAt := some s.clock, removed := removed }) }
  | _, _ => none

/-- The calls of a process end with it. -/
def killSave (r : SaveRun) : SaveRun :=
  match r.phase with
  | .returned _ => r
  | _ => { r with phase := .killed }

/-- A delete that has not returned ends with the process. -/
def killDelete (d : DeleteRun) : DeleteRun :=
  match d.phase with
  | .returned _ => d
  | _ => { d with phase := .killed }

/-- The clock counts the event. -/
def tick (s : StoreState) : StoreState := { s with clock := s.clock + 1 }

end StoreState

/-- One event of the store. -/
def storeStep (cfg : StoreConfig) (s : StoreState) : StoreEvent → Option StoreState
  | .save cp =>
      some <| StoreState.tick <|
        match cfg.prepare cp with
        | .error e =>
            { s.setSave s.calls
                { checkpoint := cp, json := "", temp := ⟨cp.jobId, s.pid, s.seq⟩,
                  phase := .returned (.error e), renamedAt := none,
                  returnedAt := some s.clock } with calls := s.calls + 1 }
        | .ok json =>
            { s.setSave s.calls
                { checkpoint := cp, json := json, temp := ⟨cp.jobId, s.pid, s.seq⟩,
                  phase := .create, renamedAt := none, returnedAt := none } with
              calls := s.calls + 1, seq := s.seq + 1 }
  | .saveStep call fault =>
      (s.saves call).bind fun r => (s.saveStep cfg call r fault).map StoreState.tick
  | .delete jobId =>
      some <| StoreState.tick <|
        { s with
          deletes := Function.update s.deletes s.calls
            (some ⟨jobId, .unlink, s.clock, none, false⟩)
          calls := s.calls + 1 }
  | .unlink call fault =>
      (s.deletes call).bind fun d => (s.unlinkStep call d fault).map StoreState.tick
  | .crash pick torn pid =>
      some <| StoreState.tick <|
        { s with
          disk := s.disk.crash pick torn
          pid := pid
          seq := 0
          saves := fun call => (s.saves call).map StoreState.killSave
          deletes := fun call => (s.deletes call).map StoreState.killDelete }

/-- An empty directory. -/
def storeInit (pid : ℕ) : StoreState where
  disk := .empty .empty
  pid := pid
  seq := 0
  saves := fun _ => none
  deletes := fun _ => none
  calls := 0
  clock := 1
  syncedAt := 0

end KDown
