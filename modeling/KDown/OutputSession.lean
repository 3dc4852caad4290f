/-
KDown/OutputSession.lean

The owner of a temporary output and the write capabilities it lends
(io/output_session.rs, with `FileSink` of io/sink.rs under it).

The owner's calls borrow the session mutably, and so they follow one another.
Capabilities are cloned, used and dropped on other threads: each access to the
shared counter is a step of its own, and the owner's calls, which read the
counter once at most, stand between any two of them.  A capability is in
existence from its `fetch_add` to its `fetch_sub`; the file handle in it is
let go a step later.

What the file system answers is part of each operation.  What an operation does
to the file is in the record `calls`, what it does to the two directory entries
is in `dir` (KDown/Publish.lean).
-/
import KDown.Publish
import Mathlib.Algebra.Order.Ring.Nat
import Mathlib.Data.List.Count
import Mathlib.Logic.Function.Iterate

namespace KDown

/-! ### The sink -/

/-- `std::io::ErrorKind`, as far as it is told apart. -/
inductive OsErrorKind
  | notFound
  | permissionDenied
  | unsupported
  | other
  deriving DecidableEq, Repr

/-- An error of the file system. -/
structure OsError where
  kind : OsErrorKind
  rawOsError : Option ℕ
  text : String
  deriving DecidableEq, Repr

/-- The error of a job for an error of the file system: a missing entry, a
missing permission, a full disk, or a failed write. -/
def DownloadError.fromIo (err : OsError) : DownloadError :=
  match err.kind with
  | .notFound => .sinkOpen err.text
  | .permissionDenied => .permissionDenied err.text
  | _ =>
      if err.rawOsError = some 28 ∨ err.rawOsError = some 122 then .diskFull err.text
      else if err.rawOsError = some 13 ∨ err.rawOsError = some 30 then .permissionDenied err.text
      else .sinkWrite err.text

/-- How far a flush goes. -/
inductive FlushLevel
  | pageCache
  | fsyncFile
  | fsyncDir
  deriving DecidableEq, Repr

/-- A change of the output file. -/
inductive OutputCall
  | setLen (len : ℕ)
  | allocate (len : ℕ)
  /-- Through the owner's handle. -/
  | sequential (offset : ℕ) (bytes : List UInt8)
  /-- Through a write capability. -/
  | positional (offset : ℕ) (bytes : List UInt8)
  | syncAll
  deriving DecidableEq, Repr

/-- The output outside the process: the changes of the file, and the entries. -/
structure OutputWorld where
  calls : List OutputCall
  dir : OutputDir
  deriving DecidableEq, Repr

/-- The call is recorded. -/
def OutputWorld.call (w : OutputWorld) (c : OutputCall) : OutputWorld :=
  { w with calls := w.calls ++ [c] }

/-- `remove_file` of the temp path, if the file system lets it. -/
def OutputWorld.removeTemp (w : OutputWorld) : OutputWorld := { w with dir := { w.dir with temp := none } }

/-- `FileSink` with what its session uses of it. -/
structure SessionSink extends FileSink where
  preallocate : Bool
  physical : Bool
  keepOnDrop : Bool
  bytesWritten : ℕ
  aborted : Bool
  deriving DecidableEq, Repr

/-- An operation that needs the session for itself, with the answers it gets. -/
inductive ExclusiveOp
  | prepare (totalSize : Option ℕ) (setLen allocate : Option OsError)
  /-- A write may fail after some bytes. -/
  | writeAt (offset : ℕ) (bytes : List UInt8) (seek : Option OsError) (write : Option (ℕ × OsError))
  | flush (level : FlushLevel) (sync : Option OsError)
  | size (answer : Except OsError ℕ)
  | truncateTo (len : ℕ) (setLen : Option OsError)
  | finalize (sync : Option OsError)
  | abort (remove : Option OsError)

/-- What an exclusive operation returns. -/
inductive ExclusiveValue
  | unit
  | size (len : ℕ)
  | tempDeleted
  deriving DecidableEq, Repr

namespace SessionSink

variable (sink : SessionSink) (w : OutputWorld)

/-- An operation of the file system that is not supported is not fatal. -/
def unsupported (codes : List ℕ) (err : OsError) : Bool :=
  err.rawOsError.any (codes.contains ·) || err.kind = .unsupported

/-- Physical allocation, which may be unsupported. -/
def reservePhysical (size : ℕ) (w : OutputWorld) : Option OsError → Except DownloadError Unit × OutputWorld
  | none => (.ok (), w.call (.allocate size))
  | some err => if unsupported [95, 38, 22] err then (.ok (), w) else (.error (.fromIo err), w)

/-- Preallocate as the sink is configured; what the file system does not support
is left out. -/
def preallocateTo (size : ℕ) (setLen allocate : Option OsError) :
    Except DownloadError Unit × OutputWorld :=
  if !sink.preallocate then (.ok (), w)
  else if sink.file.isNone then (.error (.sinkOpen "sink closed"), w)
  else
    match setLen with
    | none =>
        let w := w.call (.setLen size)
        if sink.physical then reservePhysical size w allocate else (.ok (), w)
    | some err =>
        if unsupported [95] err then
          if sink.physical then reservePhysical size w allocate else (.ok (), w)
        else (.error (.fromIo err), w)

/-- `sharers` counts the other references to the handle. -/
def writeAt (sharers offset : ℕ) (bytes : List UInt8) (seek : Option OsError)
    (write : Option (ℕ × OsError)) : Except DownloadError Unit × SessionSink × OutputWorld :=
  if sink.file.isNone then (.error (.sinkWrite "sink closed"), sink, w)
  else if sharers ≠ 0 then
    (.error (.sinkWrite "sink handle is shared with write-only worker capabilities"), sink, w)
  else
    match seek, write with
    | some err, _ => (.error (.fromIo err), sink, w)
    | none, some (n, err) => (.error (.fromIo err), sink, w.call (.sequential offset (bytes.take n)))
    | none, none =>
        (.ok (), { sink with bytesWritten := max sink.bytesWritten (offset + bytes.length) },
          w.call (.sequential offset bytes))

/-- Synchronize the file, except at the level of the page cache. -/
def flush (level : FlushLevel) (sync : Option OsError) : Except DownloadError Unit × OutputWorld :=
  if sink.file.isNone then (.error (.sinkWrite "sink closed"), w)
  else if level = .pageCache then (.ok (), w)
  else
    match sync with
    | some err => (.error (.fromIo err), w)
    | none => (.ok (), w.call .syncAll)

/-- Close the sink and remove the temp file; a file that is gone is no error. -/
def abort (remove : Option OsError) : Except DownloadError Unit × SessionSink × OutputWorld :=
  let closed := { sink with file := none }
  match remove with
  | none => (.ok (), { closed with aborted := true }, w.removeTemp)
  | some err =>
      if err.kind = .notFound then (.ok (), { closed with aborted := true }, w)
      else (.error (.fromIo err), closed, w)

/-- Preallocate, if the size is known. -/
def prepare (totalSize : Option ℕ) (setLen allocate : Option OsError) :
    Except DownloadError Unit × OutputWorld :=
  match totalSize with
  | none => (.ok (), w)
  | some size => sink.preallocateTo w size setLen allocate

/-- The size of the open file. -/
def size (answer : Except OsError ℕ) : Except DownloadError ℕ :=
  if sink.file.isNone then .error (.sinkOpen "sink closed") else answer.mapError .fromIo

/-- Cut or extend the open file. -/
def truncateTo (len : ℕ) (setLen : Option OsError) : Except DownloadError Unit × OutputWorld :=
  if sink.file.isNone then (.error (.sinkOpen "sink closed"), w)
  else
    match setLen with
    | some err => (.error (.fromIo err), w)
    | none => (.ok (), w.call (.setLen len))

/-- Synchronize and close. -/
def finalize (sync : Option OsError) : Except DownloadError Unit × SessionSink × OutputWorld :=
  match sink.flush w .fsyncFile sync with
  | (.error e, w) => (.error e, sink, w)
  | (.ok (), w) => (.ok (), { sink with file := none, finalized := true }, w)

/-- Each operation on the sink, with what it returns. -/
def run (sharers : ℕ) : ExclusiveOp → Except DownloadError ExclusiveValue × SessionSink × OutputWorld
  | .prepare totalSize setLen allocate =>
      let (r, w) := sink.prepare w totalSize setLen allocate
      (r.map fun _ => .unit, sink, w)
  | .writeAt offset bytes seek write =>
      let (r, sink, w) := sink.writeAt w sharers offset bytes seek write
      (r.map fun _ => .unit, sink, w)
  | .flush level sync =>
      let (r, w) := sink.flush w level sync
      (r.map fun _ => .unit, sink, w)
  | .size answer => ((sink.size answer).map .size, sink, w)
  | .truncateTo len setLen =>
      let (r, w) := sink.truncateTo w len setLen
      (r.map fun _ => .unit, sink, w)
  | .finalize sync =>
      let (r, sink, w) := sink.finalize w sync
      (r.map fun _ => .unit, sink, w)
  | .abort remove =>
      let (r, sink, w) := sink.abort w remove
      (r.map fun _ => .tempDeleted, sink, w)

/-- `FileSink::drop`. -/
def drop (removes : Bool) : OutputWorld :=
  if !sink.finalized && !sink.aborted && !sink.keepOnDrop && removes then w.removeTemp else w

/-- `FileSink::commit_with_policy`, which consumes the sink. -/
def commit (mode : PublishMode) (metadata : Option OsError) (ops : PublicationOps) (removes : Bool) :
    Except DownloadError (Option String) × OutputWorld :=
  match sink.file.bind fun _ => metadata with
  | some err => (.error (.fromIo err), sink.drop w removes)
  | none =>
      -- from here on a drop keeps the temp file
      match sink.commitWithPolicy w.dir ops mode with
      | .error e => (.error e, w)
      | .ok (dir, warning) => (.ok warning, { w with dir := dir })

end SessionSink

/-! ### The session -/

/-- What becomes of the temp file when the session is dropped. -/
inductive PartialArtifactDisposition
  | deleteOnDrop
  | preserveOnDrop
  deriving DecidableEq, Repr

/-- `OutputSession` with its capability counter. -/
structure FileOutputSession where
  sink : Option SessionSink
  /-- The counter of the capabilities lent, while they are. -/
  shared : Option ℕ
  disposition : PartialArtifactDisposition
  deriving DecidableEq, Repr

/-- `AtomicUsize::fetch_add(1)`. -/
def fetchAdd (n : ℕ) : ℕ := (n + 1) % 2 ^ 64

/-- `AtomicUsize::fetch_sub(1)`. -/
def fetchSub (n : ℕ) : ℕ := (n + 2 ^ 64 - 1) % 2 ^ 64

/-- A clone of an `Arc` that has more references than this aborts the process. -/
def maxRefcount : ℕ := 2 ^ 63 - 1

/-- The session, what it has lent, and the output. -/
structure OutputSystem where
  /-- None once the session is committed or dropped. -/
  session : Option FileOutputSession
  /-- The counters allocated so far, by number. -/
  counters : ℕ → ℕ
  nextCounter : ℕ
  /-- The write capabilities in existence, each with its counter. -/
  handles : List ℕ
  /-- Capabilities that have counted down and still hold the file. -/
  releasing : ℕ
  /-- Synchronization capabilities. -/
  syncs : ℕ
  world : OutputWorld

/-- A call of the owner. -/
inductive OwnerOp
  | shareWriteHandles (workerCount : ℕ)
  | reclaimExclusive
  | exclusive (op : ExclusiveOp)
  | commitWithPolicy (mode : PublishMode) (metadata : Option OsError) (ops : PublicationOps)
      (removes : Bool)
  | syncCapability
  | preservePartial
  /-- The session goes out of scope. -/
  | drop (removes : Bool)

namespace FileOutputSession

/-- The sink, unless capabilities are lent. -/
def sinkMut (self : FileOutputSession) : Except DownloadError SessionSink :=
  if self.shared.isSome then .error sharedSessionError
  else
    match self.sink with
    | none => .error sharedSessionError
    | some sink => .ok sink

/-- From here on a drop keeps the temp file. -/
def preservePartial (self : FileOutputSession) : FileOutputSession :=
  { self with
    disposition := .preserveOnDrop
    sink := self.sink.map fun sink => { sink with keepOnDrop := true } }

/-- Does the session leave the temp file when it is dropped?  What was finalized
or aborted is not removed. -/
def keepsTemp (self : FileOutputSession) : Bool :=
  self.disposition = .preserveOnDrop ||
    self.sink.all fun sink => sink.finalized || sink.aborted

/-- `OutputSession::drop` and then the drop of its sink. -/
def drop (self : FileOutputSession) (w : OutputWorld) (removes : Bool) : OutputWorld :=
  match self.sink with
  | none => w
  | some sink => { sink with keepOnDrop := self.disposition = PartialArtifactDisposition.preserveOnDrop }.drop w removes

end FileOutputSession

namespace OutputSystem

/-- References to the file handle besides the sink's own. -/
def sharers (s : OutputSystem) : ℕ := s.handles.length + s.releasing + s.syncs

/-- References to the file handle. -/
def strongCount (s : OutputSystem) : ℕ :=
  s.sharers + if (s.session.bind (·.sink)).any (·.file.isSome) then 1 else 0

variable (s : OutputSystem) (self : FileOutputSession)

/-- `share_write_handles`: lend a capability to each worker. -/
def shareWriteHandles (workerCount : ℕ) : Option (Except DownloadError Unit × OutputSystem) :=
  if workerCount = 0 ∨ self.shared.isSome then some (.error sharedSessionError, s)
  else if (self.sink.bind (·.file)).isNone then some (.error sharedSessionError, s)
  -- one clone of the handle for the call, and one of it for each worker
  else if s.strongCount + workerCount ≤ maxRefcount then
    some (.ok (), { s with
      session := some { self with shared := some s.nextCounter }
      counters := Function.update s.counters s.nextCounter (fetchAdd^[workerCount] 0)
      nextCounter := s.nextCounter + 1
      handles := s.handles ++ List.replicate workerCount s.nextCounter })
  else none

/-- `reclaim_exclusive`: take the capabilities back, once none is alive. -/
def reclaimExclusive : Except DownloadError Unit × FileOutputSession :=
  match self.shared with
  | none => (.ok (), self)
  | some counter =>
      if 0 < s.counters counter then
        (.error sharedSessionError, { self with shared := some counter })
      else (.ok (), { self with shared := none })

/-- The session goes, whatever it has lent. -/
def dropSession (removes : Bool) : OutputSystem :=
  { s with session := none, world := self.drop s.world removes }

/-- An exclusive operation, with what it returns. -/
def exclusive (op : ExclusiveOp) : Except DownloadError ExclusiveValue × OutputSystem :=
  match self.sinkMut with
  | .error e => (.error e, s)
  | .ok sink =>
      let (r, sink, w) := sink.run s.world s.sharers op
      (r, { s with session := some { self with sink := some sink }, world := w })

/-- `commit_with_policy` consumes the session: it is dropped at every return. -/
def commitWithPolicy (mode : PublishMode) (metadata : Option OsError) (ops : PublicationOps)
    (removes : Bool) : Except DownloadError (Option String) × OutputSystem :=
  match s.reclaimExclusive self with
  | (.error e, self) => (.error e, s.dropSession self removes)
  | (.ok (), self) =>
      match self.sink with
      | none => (.error sharedSessionError, s.dropSession self removes)
      | some sink =>
          let (r, w) := sink.commit s.world mode metadata ops removes
          (r, { s with session := none, world := w })

/-- A capability that can only synchronize. -/
def syncCapability : Option (Except DownloadError Unit × OutputSystem) :=
  if (self.sink.bind (·.file)).isNone then some (.error sharedSessionError, s)
  else if s.strongCount ≤ maxRefcount then some (.ok (), { s with syncs := s.syncs + 1 })
  else none

/-- A call of the owner: what it returns, and the state after it.  There is none
without a session, or if the process aborts. -/
def perform (s : OutputSystem) (op : OwnerOp) : Option (Except DownloadError Unit × OutputSystem) :=
  s.session.bind fun self =>
    match op with
    | .shareWriteHandles workerCount => s.shareWriteHandles self workerCount
    | .reclaimExclusive =>
        let (r, self) := s.reclaimExclusive self
        some (r, { s with session := some self })
    | .exclusive op =>
        let (r, s) := s.exclusive self op
        some (r.map fun _ => (), s)
    | .commitWithPolicy mode metadata ops removes =>
        let (r, s) := s.commitWithPolicy self mode metadata ops removes
        some (r.map fun _ => (), s)
    | .syncCapability => s.syncCapability self
    | .preservePartial => some (.ok (), { s with session := some self.preservePartial })
    | .drop removes => some (.ok (), s.dropSession self removes)

end OutputSystem

/-- A call of the owner, or what is done with a capability elsewhere. -/
inductive OutputEvent
  | owner (op : OwnerOp)
  /-- `clone_capability` of the handle at a place. -/
  | cloneCapability (i : ℕ)
  | dropCapability (i : ℕ)
  /-- A dropped capability lets the file go. -/
  | releaseFile
  /-- `write_blocking`; a write that fails may have written some of it. -/
  | writeBlocking (i offset : ℕ) (written : List UInt8)
  | cloneSync
  | dropSync
  | syncData
  deriving Inhabited

/-- One event. -/
def outputStep (s : OutputSystem) : OutputEvent → Option OutputSystem
  | .owner op => (s.perform op).map Prod.snd
  | .cloneCapability i =>
      match s.handles[i]? with
      | none => none
      | some counter =>
          if s.strongCount ≤ maxRefcount then
            some { s with
              counters := Function.update s.counters counter (fetchAdd (s.counters counter))
              handles := s.handles ++ [counter] }
          else none
  | .dropCapability i =>
      match s.handles[i]? with
      | none => none
      | some counter =>
          some { s with
            counters := Function.update s.counters counter (fetchSub (s.counters counter))
            handles := s.handles.eraseIdx i
            releasing := s.releasing + 1 }
  | .releaseFile => if 0 < s.releasing then some { s with releasing := s.releasing - 1 } else none
  | .writeBlocking i offset written =>
      if i < s.handles.length then some { s with world := s.world.call (.positional offset written) }
      else none
  | .cloneSync =>
      if 0 < s.syncs ∧ s.strongCount ≤ maxRefcount then some { s with syncs := s.syncs + 1 } else none
  | .dropSync => if 0 < s.syncs then some { s with syncs := s.syncs - 1 } else none
  | .syncData => if 0 < s.syncs then some { s with world := s.world.call .syncAll } else none

/-- A session just opened, with nothing lent. -/
structure OutputSystem.Opened (s : OutputSystem) : Prop where
  counters : s.counters = fun _ => 0
  handles : s.handles = []
  alone : s.releasing = 0 ∧ s.syncs = 0
  unshared : ∀ self ∈ s.session, self.shared = none

/-! ### What is refused -/

theorem DownloadError.fromIo_ne_shared (err : OsError) : DownloadError.fromIo err ≠ sharedSessionError := by
  rw [DownloadError.fromIo]
  split
  · nofun
  · nofun
  · split_ifs <;> nofun

namespace SessionSink

variable {sink : SessionSink} {w : OutputWorld} {sharers : ℕ}

theorem reservePhysical_ne {size : ℕ} {answer : Option OsError} :
    (reservePhysical size w answer).1 ≠ .error sharedSessionError := by
  unfold reservePhysical
  split
  · nofun
  · next err =>
    split
    · nofun
    · exact fun h => DownloadError.fromIo_ne_shared err (Except.error.inj h)

/-- Preallocation never answers that the session is shared. -/
theorem preallocateTo_ne {size : ℕ} {setLen allocate : Option OsError} :
    (sink.preallocateTo w size setLen allocate).1 ≠ .error sharedSessionError := by
  have hreserve : ∀ w, (if sink.physical then reservePhysical size w allocate else (.ok (), w)).1 ≠
      .error sharedSessionError := by
    intro w
    split
    · exact reservePhysical_ne
    · nofun
  unfold preallocateTo
  split
  · nofun
  split
  · nofun
  split
  · exact hreserve _
  · next err =>
    split
    · exact hreserve _
    · exact fun h => DownloadError.fromIo_ne_shared err (Except.error.inj h)

theorem writeAt_ne {offset : ℕ} {bytes : List UInt8} {seek : Option OsError}
    {write : Option (ℕ × OsError)} :
    (sink.writeAt w sharers offset bytes seek write).1 ≠ .error sharedSessionError := by
  unfold writeAt
  split
  · nofun
  split
  · nofun
  split
  · next err => exact fun h => DownloadError.fromIo_ne_shared err (Except.error.inj h)
  · next n err => exact fun h => DownloadError.fromIo_ne_shared err (Except.error.inj h)
  · nofun

theorem flush_ne {level : FlushLevel} {sync : Option OsError} :
    (sink.flush w level sync).1 ≠ .error sharedSessionError := by
  unfold flush
  split
  · nofun
  split
  · nofun
  split
  · next err => exact fun h => DownloadError.fromIo_ne_shared err (Except.error.inj h)
  · nofun

theorem abort_ne {remove : Option OsError} :
    (sink.abort w remove).1 ≠ .error sharedSessionError := by
  unfold abort
  dsimp only
  split
  · nofun
  · next err =>
    split
    · nofun
    · exact fun h => DownloadError.fromIo_ne_shared err (Except.error.inj h)

theorem map_ne {α β : Type} {r : Except DownloadError α} {f : α → β} {e : DownloadError}
    (h : r ≠ .error e) : r.map f ≠ .error e := by
  rcases r with e' | a
  · exact fun heq => h (congrArg _ (Except.error.inj heq))
  · nofun

theorem prepare_ne {totalSize : Option ℕ} {setLen allocate : Option OsError} :
    (sink.prepare w totalSize setLen allocate).1 ≠ .error sharedSessionError := by
  rcases totalSize with - | size
  · nofun
  · exact preallocateTo_ne

theorem size_ne {answer : Except OsError ℕ} : sink.size answer ≠ .error sharedSessionError := by
  unfold size
  split
  · nofun
  rcases answer with err | n
  · exact fun h => DownloadError.fromIo_ne_shared err (Except.error.inj h)
  · nofun

theorem truncateTo_ne {len : ℕ} {setLen : Option OsError} :
    (sink.truncateTo w len setLen).1 ≠ .error sharedSessionError := by
  unfold truncateTo
  split
  · nofun
  split
  · next err => exact fun h => DownloadError.fromIo_ne_shared err (Except.error.inj h)
  · nofun

theorem finalize_ne {sync : Option OsError} : (sink.finalize w sync).1 ≠ .error sharedSessionError := by
  have hflush : (sink.flush w .fsyncFile sync).1 ≠ .error sharedSessionError := flush_ne
  unfold finalize
  split
  · next e w' heq =>
    rw [heq] at hflush
    exact fun h => hflush (congrArg _ (Except.error.inj h))
  · nofun

/-- The sink never answers what a lent session answers. -/
theorem run_ne (op : ExclusiveOp) : (sink.run w sharers op).1 ≠ .error sharedSessionError := by
  cases op with
  | prepare totalSize setLen allocate => exact map_ne prepare_ne
  | writeAt offset bytes seek write => exact map_ne writeAt_ne
  | flush level sync => exact map_ne flush_ne
  | size answer => exact map_ne size_ne
  | truncateTo len setLen => exact map_ne truncateTo_ne
  | finalize sync => exact map_ne finalize_ne
  | abort remove => exact map_ne abort_ne

theorem commit_ne {mode : PublishMode} {metadata : Option OsError} {ops : PublicationOps}
    {removes : Bool} : (sink.commit w mode metadata ops removes).1 ≠ .error sharedSessionError := by
  rw [commit]
  split
  · next err _ => exact fun h => DownloadError.fromIo_ne_shared err (Except.error.inj h)
  split
  · next e he =>
    rw [FileSink.commitWithPolicy] at he
    split at he
    · cases he
    · split_ifs at he <;> cases he <;> nofun
  · nofun

end SessionSink

/-! ### Counting -/

theorem fetchAdd_of_lt {n : ℕ} (h : n + 1 < 2 ^ 64) : fetchAdd n = n + 1 := Nat.mod_eq_of_lt h

theorem fetchSub_of_pos {n : ℕ} (h : 0 < n) (hlt : n < 2 ^ 64) : fetchSub n = n - 1 := by
  rw [fetchSub, show n + 2 ^ 64 - 1 = (n - 1) + 2 ^ 64 by omega, Nat.add_mod_right]
  exact Nat.mod_eq_of_lt (by omega)

theorem fetchAdd_iterate {n : ℕ} (h : n < 2 ^ 64) : fetchAdd^[n] 0 = n := by
  induction n with
  | zero => rfl
  | succ n ih =>
    rw [Function.iterate_succ_apply', ih (by omega)]
    exact fetchAdd_of_lt h

/-- One occurrence goes. -/
theorem count_eraseIdx {l : List ℕ} {i a : ℕ} (h : l[i]? = some a) (b : ℕ) :
    (l.eraseIdx i).count b + (if a = b then 1 else 0) = l.count b := by
  obtain ⟨hlt, hget⟩ := List.getElem?_eq_some_iff.mp h
  have hsplit : l = l.take i ++ a :: l.drop (i + 1) := by
    rw [← hget, ← List.drop_eq_getElem_cons hlt, List.take_append_drop]
  have hcount : l.count b = (l.take i).count b + ((l.drop (i + 1)).count b + if a = b then 1 else 0) := by
    conv_lhs => rw [hsplit, List.count_append, List.count_cons]
    simp only [beq_iff_eq]
  rw [hcount, List.eraseIdx_eq_take_drop_succ, List.count_append, Nat.add_assoc]

namespace OutputSystem

variable {s s' : OutputSystem} {self : FileOutputSession}

/-- The counters count, and what is lent is lent by the session. -/
structure Lending (s : OutputSystem) : Prop where
  count : ∀ counter, s.counters counter = s.handles.count counter
  bound : s.handles.length ≤ 2 ^ 63
  known : ∀ counter ∈ s.handles, counter < s.nextCounter
  lent : ∀ self ∈ s.session, ∀ counter ∈ s.handles, self.shared = some counter

theorem Opened.lending (h : s.Opened) : s.Lending where
  count := fun counter => by
    rw [h.counters, h.handles]
    rfl
  bound := by
    rw [h.handles]
    exact Nat.zero_le _
  known := by
    rw [h.handles]
    intro counter hmem
    exact absurd hmem List.not_mem_nil
  lent := by
    rw [h.handles]
    intro self _ counter hmem
    exact absurd hmem List.not_mem_nil

theorem Lending.lt (h : s.Lending) (counter : ℕ) : s.counters counter < 2 ^ 64 - 1 := by
  have hle : s.handles.count counter ≤ s.handles.length := List.count_le_length
  have hbound := h.bound
  rw [h.count]
  omega

theorem Lending.pos (h : s.Lending) {counter : ℕ} (hmem : counter ∈ s.handles) :
    0 < s.counters counter := by
  rw [h.count]
  exact List.count_pos_iff.mpr hmem

/-- While a capability is alive the session is marked as lent. -/
theorem Lending.shared (h : s.Lending) (hself : s.session = some self) (hne : s.handles ≠ []) :
    ∃ counter ∈ s.handles, self.shared = some counter := by
  obtain ⟨counter, hmem⟩ := List.exists_mem_of_ne_nil _ hne
  exact ⟨counter, hmem, h.lent self hself counter hmem⟩

/-- A session that is not lent has nothing in existence. -/
theorem Lending.none_alive (h : s.Lending) (hself : s.session = some self)
    (hshared : self.shared = none) : s.handles = [] := by
  by_contra hne
  obtain ⟨counter, -, hlent⟩ := h.shared hself hne
  rw [hshared] at hlent
  cases hlent

/-- Nothing that is counted changes, and the session stays as lent as it was. -/
theorem Lending.of_eq (h : s.Lending) (hcounters : s'.counters = s.counters)
    (hnext : s'.nextCounter = s.nextCounter) (hhandles : s'.handles = s.handles)
    (hsession : ∀ self' ∈ s'.session, ∃ self ∈ s.session, self'.shared = self.shared) :
    s'.Lending := by
  refine ⟨fun counter => ?_, hhandles ▸ h.bound, fun counter hmem => ?_, fun self' hself' counter hmem => ?_⟩
  · rw [hcounters, hhandles]
    exact h.count counter
  · rw [hnext]
    exact h.known counter (hhandles ▸ hmem)
  · obtain ⟨self, hself, heq⟩ := hsession self' hself'
    rw [heq]
    exact h.lent self hself counter (hhandles ▸ hmem)

/-- **Sharing lends as many handles as there are workers**, and one writer. -/
theorem Lending.share (h : s.Lending) (hself : s.session = some self) {workerCount : ℕ}
    {r : Except DownloadError Unit} (hs : s.shareWriteHandles self workerCount = some (r, s')) :
    s'.Lending := by
  unfold shareWriteHandles at hs
  split_ifs at hs with hrefuse hclosed hfit
  · cases hs
    exact h
  · cases hs
    exact h
  · cases hs
    have hnone : self.shared = none := by
      rw [← Option.not_isSome_iff_eq_none]
      exact fun hsome => hrefuse (.inr hsome)
    have hempty := h.none_alive hself hnone
    have hlt : workerCount < 2 ^ 63 := by
      rw [maxRefcount] at hfit
      omega
    refine ⟨fun counter => ?_, ?_, fun counter hmem => ?_, fun self' hself' counter hmem => ?_⟩
    · show Function.update s.counters s.nextCounter (fetchAdd^[workerCount] 0) counter =
        (s.handles ++ List.replicate workerCount s.nextCounter).count counter
      rw [hempty, List.nil_append, fetchAdd_iterate (by omega)]
      by_cases hc : counter = s.nextCounter
      · rw [hc, Function.update_self, List.count_replicate_self]
      · rw [Function.update_of_ne hc, h.count, hempty, List.count_nil, List.count_replicate,
          if_neg (by simpa using fun heq => hc heq.symm)]
    · show (s.handles ++ List.replicate workerCount s.nextCounter).length ≤ _
      rw [hempty, List.nil_append, List.length_replicate]
      omega
    · rw [show counter = s.nextCounter from ?_]
      · exact Nat.lt_succ_self _
      · have hin : counter ∈ s.handles ++ List.replicate workerCount s.nextCounter := hmem
        rw [hempty, List.nil_append] at hin
        exact List.eq_of_mem_replicate hin
    · cases hself'
      have hin : counter ∈ s.handles ++ List.replicate workerCount s.nextCounter := hmem
      rw [hempty, List.nil_append] at hin
      rw [List.eq_of_mem_replicate hin]

/-- The test of the counter: refused, nothing changes; passed, nothing is lent. -/
theorem reclaimExclusive_cases (s : OutputSystem) (self : FileOutputSession) :
    (∃ counter, self.shared = some counter ∧ 0 < s.counters counter ∧
      s.reclaimExclusive self = (.error sharedSessionError, self)) ∨
    ((∀ counter ∈ self.shared, s.counters counter = 0) ∧
      s.reclaimExclusive self = (.ok (), { self with shared := none })) := by
  unfold reclaimExclusive
  rcases hshared : self.shared with - | counter
  · refine .inr ⟨nofun, ?_⟩
    cases self
    cases hshared
    rfl
  · by_cases hpos : 0 < s.counters counter
    · refine .inl ⟨counter, rfl, hpos, ?_⟩
      cases self
      cases hshared
      simp only [if_pos hpos]
    · refine .inr ⟨fun counter' hc => ?_, ?_⟩
      · cases hc
        exact Nat.eq_zero_of_not_pos hpos
      · simp only [if_neg hpos]

/-- While a capability is alive the owner gets its session not back. -/
theorem Lending.reclaim_refused (h : s.Lending) (hself : s.session = some self)
    (hne : s.handles ≠ []) : s.reclaimExclusive self = (.error sharedSessionError, self) := by
  rcases s.reclaimExclusive_cases self with ⟨-, -, -, heq⟩ | ⟨hzero, -⟩
  · exact heq
  · obtain ⟨counter, hmem, hlent⟩ := h.shared hself hne
    exact absurd (hzero counter hlent) (Nat.ne_of_gt (h.pos hmem))

theorem Lending.reclaim (h : s.Lending) (hself : s.session = some self) :
    Lending { s with session := some (s.reclaimExclusive self).2 } := by
  refine ⟨h.count, h.bound, h.known, fun self' hself' counter hmem => ?_⟩
  have hne : s.handles ≠ [] := List.ne_nil_of_mem hmem
  rw [h.reclaim_refused hself hne] at hself'
  exact h.lent self' (hself.trans hself') counter hmem

theorem Lending.exclusive (h : s.Lending) (hself : s.session = some self) (op : ExclusiveOp) :
    (s.exclusive self op).2.Lending := by
  unfold OutputSystem.exclusive
  split
  · exact h
  · refine h.of_eq rfl rfl rfl fun self' hself' => ⟨self, hself, ?_⟩
    cases hself'
    rfl

/-- The session is gone, and the capabilities are as they were. -/
theorem Lending.ended (h : s.Lending) (w : OutputWorld) :
    Lending { s with session := none, world := w } :=
  h.of_eq rfl rfl rfl nofun

theorem Lending.commit (h : s.Lending) {mode : PublishMode} {metadata : Option OsError}
    {ops : PublicationOps} {removes : Bool} :
    (s.commitWithPolicy self mode metadata ops removes).2.Lending := by
  unfold OutputSystem.commitWithPolicy
  split
  · exact h.ended _
  split
  · exact h.ended _
  · exact h.ended _

/-- Every operation of the owner keeps the counters exact. -/
theorem Lending.perform (h : s.Lending) {op : OwnerOp} {r : Except DownloadError Unit}
    (hs : s.perform op = some (r, s')) : s'.Lending := by
  obtain ⟨self, hself, hop⟩ := Option.bind_eq_some_iff.mp hs
  cases op with
  | shareWriteHandles workerCount => exact h.share hself hop
  | reclaimExclusive =>
    cases hop
    exact h.reclaim hself
  | exclusive op =>
    cases hop
    exact h.exclusive hself op
  | commitWithPolicy mode metadata ops removes =>
    cases hop
    exact h.commit
  | syncCapability =>
    simp only [OutputSystem.syncCapability] at hop
    split_ifs at hop <;> cases hop
    · exact h
    · exact h.of_eq rfl rfl rfl fun self' hself' => ⟨self', hself', rfl⟩
  | preservePartial =>
    cases hop
    refine h.of_eq rfl rfl rfl fun self' hself' => ⟨self, hself, ?_⟩
    cases hself'
    rfl
  | drop removes =>
    cases hop
    exact h.ended _

/-- A clone is counted with the one it was cloned from. -/
theorem Lending.clone (h : s.Lending) {i : ℕ} (hs : outputStep s (.cloneCapability i) = some s') :
    s'.Lending := by
  simp only [outputStep] at hs
  split at hs
  · cases hs
  next counter hi =>
  split_ifs at hs with hfit
  cases hs
  have hmem := List.mem_of_getElem? hi
  have hlt := h.lt counter
  refine ⟨fun counter' => ?_, ?_, fun counter' hmem' => ?_, fun self hself counter' hmem' => ?_⟩
  · show Function.update s.counters counter (fetchAdd (s.counters counter)) counter' =
      (s.handles ++ [counter]).count counter'
    rw [List.count_append, fetchAdd_of_lt (by omega)]
    by_cases hc : counter' = counter
    · rw [hc, Function.update_self, h.count, List.count_singleton_self]
    · rw [Function.update_of_ne hc, h.count, List.count_singleton,
        if_neg (by simpa using fun heq => hc heq.symm), Nat.add_zero]
  · show (s.handles ++ [counter]).length ≤ _
    rw [List.length_append, List.length_singleton]
    have hsharers : s.handles.length ≤ s.strongCount := by
      rw [strongCount, sharers]
      omega
    rw [maxRefcount] at hfit
    omega
  · rcases List.mem_append.mp hmem' with hold | hnew
    · exact h.known counter' hold
    · rw [List.mem_singleton.mp hnew]
      exact h.known counter hmem
  · rcases List.mem_append.mp hmem' with hold | hnew
    · exact h.lent self hself counter' hold
    · rw [List.mem_singleton.mp hnew]
      exact h.lent self hself counter hmem

/-- **A handle that is dropped is counted out.** -/
theorem Lending.dropped (h : s.Lending) {i : ℕ} (hs : outputStep s (.dropCapability i) = some s') :
    s'.Lending := by
  simp only [outputStep] at hs
  split at hs
  · cases hs
  next counter hi =>
  cases hs
  have hmem := List.mem_of_getElem? hi
  have hlt := h.lt counter
  have hsub : ∀ counter' ∈ s.handles.eraseIdx i, counter' ∈ s.handles :=
    fun _ hmem' => (List.eraseIdx_sublist _ _).subset hmem'
  refine ⟨fun counter' => ?_, Nat.le_trans (List.eraseIdx_sublist _ _).length_le h.bound,
    fun counter' hmem' => h.known counter' (hsub _ hmem'),
    fun self hself counter' hmem' => h.lent self hself counter' (hsub _ hmem')⟩
  show Function.update s.counters counter (fetchSub (s.counters counter)) counter' =
    (s.handles.eraseIdx i).count counter'
  have hcount := count_eraseIdx hi counter'
  rw [fetchSub_of_pos (h.pos hmem) (by omega)]
  by_cases hc : counter' = counter
  · rw [if_pos hc.symm, ← h.count] at hcount
    rw [hc] at hcount ⊢
    rw [Function.update_self]
    omega
  · rw [if_neg fun heq => hc heq.symm, ← h.count] at hcount
    rw [Function.update_of_ne hc]
    omega

/-- **Every event keeps the counters exact.** -/
theorem Lending.step (h : s.Lending) {e : OutputEvent} (hs : outputStep s e = some s') :
    s'.Lending := by
  have hsame : ∀ self ∈ s.session, ∃ self' ∈ s.session, self.shared = self'.shared :=
    fun self hself => ⟨self, hself, rfl⟩
  cases e with
  | owner op =>
    obtain ⟨⟨r, s''⟩, hop, rfl⟩ := Option.map_eq_some_iff.mp hs
    exact h.perform hop
  | cloneCapability i => exact h.clone hs
  | dropCapability i => exact h.dropped hs
  | _ =>
    simp only [outputStep] at hs
    split_ifs at hs
    cases hs
    exact h.of_eq rfl rfl rfl hsame

/-! ### Exclusivity -/

theorem sinkMut_lent (h : self.shared.isSome) : self.sinkMut = .error sharedSessionError := if_pos h

/-- An operation that the session refuses, or that its sink performs. -/
theorem exclusive_cases (s : OutputSystem) (self : FileOutputSession) (op : ExclusiveOp) :
    s.exclusive self op = (.error sharedSessionError, s) ∨
      (s.exclusive self op).1 ≠ .error sharedSessionError := by
  unfold OutputSystem.exclusive FileOutputSession.sinkMut
  split_ifs
  · exact .inl rfl
  rcases self.sink with - | sink
  · exact .inl rfl
  · exact .inr (SessionSink.run_ne op)

/-- The session has ended, and neither the file nor the destination changed.  The
temp file went under the drop disposition, if the file system let it. -/
structure Ended (removes : Bool) (s s' : OutputSystem) : Prop where
  session : s'.session = none
  calls : s'.world.calls = s.world.calls
  dest : s'.world.dir.dest = s.world.dir.dest
  temp : s'.world.dir.temp =
    if s.session.any (·.keepsTemp) || !removes then s.world.dir.temp else none
  handles : s'.handles = s.handles
  counters : s'.counters = s.counters

theorem drop_world (w : OutputWorld) (removes : Bool) :
    (self.drop w removes).calls = w.calls ∧ (self.drop w removes).dir.dest = w.dir.dest := by
  unfold FileOutputSession.drop SessionSink.drop
  split
  · exact ⟨rfl, rfl⟩
  · split <;> exact ⟨rfl, rfl⟩

/-- The temp file is removed unless the session keeps it. -/
theorem drop_temp (w : OutputWorld) (removes : Bool) :
    (self.drop w removes).dir.temp =
      if self.keepsTemp || !removes then w.dir.temp else none := by
  unfold FileOutputSession.drop SessionSink.drop FileOutputSession.keepsTemp
  rcases self.sink with - | sink
  · simp
  cases self.disposition <;> rcases sink with ⟨⟨_, _ | _⟩, _, _, _, _, _ | _⟩ <;>
    cases removes <;> rfl

theorem dropSession_ended {self' : FileOutputSession} (hself : s.session = some self)
    (hkeeps : self'.keepsTemp = self.keepsTemp) (removes : Bool) :
    s.Ended removes (s.dropSession self' removes) where
  session := rfl
  calls := (drop_world _ _).1
  dest := (drop_world _ _).2
  temp := by
    rw [hself, Option.any_some, ← hkeeps]
    exact drop_temp _ _
  handles := rfl
  counters := rfl

/-- A commit that is refused publishes nothing. -/
theorem commit_refused (hself : s.session = some self) {mode : PublishMode}
    {metadata : Option OsError} {ops : PublicationOps} {removes : Bool}
    (h : (s.commitWithPolicy self mode metadata ops removes).1 = .error sharedSessionError) :
    s.Ended removes (s.commitWithPolicy self mode metadata ops removes).2 := by
  unfold OutputSystem.commitWithPolicy at h ⊢
  rcases s.reclaimExclusive_cases self with ⟨-, -, -, heq⟩ | ⟨-, heq⟩ <;> rw [heq] at h ⊢
  · exact dropSession_ended hself rfl removes
  rcases hsink : self.sink with - | sink <;> simp only [hsink] at h ⊢
  · refine dropSession_ended hself ?_ removes
    rw [FileOutputSession.keepsTemp, FileOutputSession.keepsTemp, hsink]
  · exact absurd h SessionSink.commit_ne

theorem Lending.commit_refused (h : s.Lending) (hself : s.session = some self)
    (hne : s.handles ≠ []) {mode : PublishMode} {metadata : Option OsError} {ops : PublicationOps}
    {removes : Bool} :
    s.commitWithPolicy self mode metadata ops removes =
      (.error sharedSessionError, s.dropSession self removes) := by
  rw [OutputSystem.commitWithPolicy, h.reclaim_refused hself hne]

end OutputSystem

/-- The calls that need the session for itself. -/
def OwnerOp.isExclusive : OwnerOp → Bool
  | .exclusive _ => true
  | .commitWithPolicy _ _ _ _ => true
  | _ => false

/-- The call takes the session by value. -/
def OwnerOp.isCommit : OwnerOp → Bool
  | .commitWithPolicy _ _ _ _ => true
  | _ => false

/-- Does the file system let the temp file be unlinked when the session is
dropped? -/
def OwnerOp.removes : OwnerOp → Bool
  | .commitWithPolicy _ _ _ removes => removes
  | .drop removes => removes
  | _ => false

namespace OutputSystem

variable {s s' : OutputSystem} {self : FileOutputSession}

theorem map_unit_eq_error {α : Type} {r : Except DownloadError α} {e : DownloadError}
    (h : (r.map fun _ => ()) = .error e) : r = .error e := by
  rcases r with e' | a
  · exact congrArg _ (Except.error.inj h)
  · cases h

theorem eq_of_session (hself : s.session = some self) : { s with session := some self } = s := by
  cases s
  cases hself
  rfl

/-- A call that borrows the session and is refused. -/
theorem perform_refused {op : OwnerOp} (hcommit : op.isCommit = false)
    (hs : s.perform op = some (.error sharedSessionError, s')) : s' = s := by
  obtain ⟨self, hself, hop⟩ := Option.bind_eq_some_iff.mp hs
  cases op with
  | shareWriteHandles workerCount =>
    simp only [shareWriteHandles] at hop
    split_ifs at hop <;> cases hop <;> rfl
  | reclaimExclusive =>
    rcases s.reclaimExclusive_cases self with ⟨-, -, -, heq⟩ | ⟨-, heq⟩
    · simp only [heq] at hop
      cases hop
      exact eq_of_session hself
    · simp only [heq] at hop
      cases hop
  | exclusive op =>
    have hpair := Prod.mk.inj (Option.some.inj hop)
    have hstate : (s.exclusive self op).2 = s' := hpair.2
    rcases s.exclusive_cases self op with heq | hne
    · rw [← hstate, heq]
    · exact absurd (map_unit_eq_error hpair.1) hne
  | commitWithPolicy mode metadata ops removes => cases hcommit
  | syncCapability =>
    simp only [syncCapability] at hop
    split_ifs at hop
    · cases hop
      rfl
    · cases hop
  | preservePartial => cases hop
  | drop removes => cases hop

theorem perform_commit_refused {op : OwnerOp} (hcommit : op.isCommit = true)
    (hs : s.perform op = some (.error sharedSessionError, s')) : s.Ended op.removes s' := by
  obtain ⟨self, hself, hop⟩ := Option.bind_eq_some_iff.mp hs
  cases op with
  | commitWithPolicy mode metadata ops removes =>
    have hpair := Prod.mk.inj (Option.some.inj hop)
    have hstate : (s.commitWithPolicy self mode metadata ops removes).2 = s' := hpair.2
    rw [← hstate]
    exact commit_refused hself (map_unit_eq_error hpair.1)
  | _ => cases hcommit

/-- While a capability is alive every exclusive call is refused. -/
theorem Lending.perform_exclusive (h : s.Lending) (hne : s.handles ≠ []) {op : OwnerOp}
    (hop : op.isExclusive = true) {r : Except DownloadError Unit} (hs : s.perform op = some (r, s')) :
    r = .error sharedSessionError := by
  obtain ⟨self, hself, hcall⟩ := Option.bind_eq_some_iff.mp hs
  cases op with
  | exclusive op =>
    obtain ⟨counter, -, hlent⟩ := h.shared hself hne
    have hgate : self.sinkMut = .error sharedSessionError := sinkMut_lent (by rw [hlent]; rfl)
    simp only [OutputSystem.exclusive, hgate] at hcall
    cases hcall
    rfl
  | commitWithPolicy mode metadata ops removes =>
    simp only [h.commit_refused hself hne] at hcall
    cases hcall
    rfl
  | _ => cases hop

end OutputSystem

/-- **An output is exclusive.**  In every state reached the counters count the
capabilities in existence, and none is taken from zero.  A call that borrows the
session and is refused changes nothing; a commit that is refused ends the
session under its drop disposition and publishes nothing.  While a capability is
alive every exclusive call is refused. -/
theorem output_exclusive {s : OutputSystem}
    (h : Reach outputStep (fun _ _ => True) OutputSystem.Opened s) :
    ((∀ counter, s.counters counter = s.handles.count counter) ∧
      ∀ (i counter : ℕ), s.handles[i]? = some counter → 0 < s.counters counter) ∧
    (∀ op s', s.perform op = some (.error sharedSessionError, s') →
      (op.isCommit = false → s' = s) ∧ (op.isCommit = true → s.Ended op.removes s')) ∧
    (s.handles ≠ [] → ∀ op, op.isExclusive = true → ∀ r s', s.perform op = some (r, s') →
      r = .error sharedSessionError) := by
  have hlending : s.Lending := h.invariant (fun _ h₀ => h₀.lending) fun _ _ _ hc _ hs => hc.step hs
  refine ⟨⟨hlending.count, fun i counter hi => hlending.pos (List.mem_of_getElem? hi)⟩,
    fun op s' hs => ⟨fun hop => s.perform_refused hop hs, fun hop => s.perform_commit_refused hop hs⟩,
    fun hne op hop r s' hs => hlending.perform_exclusive hne hop hs⟩

/-- A fresh output with its temp file. -/
def freshOutput : OutputSystem where
  session := some ⟨some ⟨⟨some ⟨1, 2⟩, false⟩, false, false, false, 0, false⟩, none, .deleteOnDrop⟩
  counters := fun _ => 0
  nextCounter := 0
  handles := []
  releasing := 0
  syncs := 0
  world := ⟨[], ⟨"out.bin.part", "out.bin", some ⟨⟨1, 2⟩, .regular⟩, none⟩⟩

theorem freshOutput_opened : freshOutput.Opened :=
  ⟨rfl, rfl, ⟨rfl, rfl⟩, fun self hself => by cases hself; rfl⟩

/-- One of two lent capabilities is cloned and one dropped; then the owner
finalizes. -/
theorem output_exclusive_freshOutput : ∃ s : OutputSystem, s.handles.length = 2 ∧
    ∀ r s', s.perform (.exclusive (.finalize none)) = some (r, s') → r = .error sharedSessionError := by
  let es : List OutputEvent :=
    [.owner (.shareWriteHandles 2), .cloneCapability 1, .dropCapability 0]
  let s := (runEvents outputStep freshOutput es).getD freshOutput
  have hrun : runEvents outputStep freshOutput es = some s := by
    rfl
  have hreach : Reach outputStep (fun _ _ => True) OutputSystem.Opened s :=
    .of_run (.start freshOutput_opened) runOk_true hrun
  have hhandles : s.handles = [0, 0] := by
    rfl
  refine ⟨s, by rw [hhandles]; rfl, fun r s' hs => ?_⟩
  exact (output_exclusive hreach).2.2 (by rw [hhandles]; nofun) _ rfl r s' hs

/-- The commit of a lent output is refused, and with the session goes the temp
file that a capability still writes to. -/
theorem refused_commit_removes : ∃ s s' : OutputSystem,
    Reach outputStep (fun _ _ => True) OutputSystem.Opened s ∧ s.handles = [0] ∧
      s.perform (.commitWithPolicy .replace none ⟨none, none⟩ true) =
        some (.error sharedSessionError, s') ∧
      s.session.isSome = true ∧ s'.session = none ∧
      s.world.dir.temp.isSome = true ∧ s'.world.dir.temp = none := by
  let s := (runEvents outputStep freshOutput [.owner (.shareWriteHandles 1)]).getD freshOutput
  have hrun : runEvents outputStep freshOutput [.owner (.shareWriteHandles 1)] = some s := by
    rfl
  have hreach : Reach outputStep (fun _ _ => True) OutputSystem.Opened s :=
    .of_run (.start freshOutput_opened) runOk_true hrun
  exact ⟨s, _, hreach, rfl, rfl, rfl, rfl, rfl, rfl⟩

end KDown
