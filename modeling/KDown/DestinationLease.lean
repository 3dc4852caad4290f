/-
KDown/DestinationLease.lean

Leases on destinations and the artifacts of a job (io/destination_lease.rs,
io/sink.rs, resume/checkpoint_store.rs, resume/flow.rs).

A lease is held on a canonical parent directory and a file name.  The job
behind it works on four entries of that directory, each with a name of its own
rule: the destination, the same name with `.part`, a sidecar named after the
hash of the URL and the destination, and a lock file named after the hash of the
file name.  The lease compares none of these with each other.  (A save of the
sidecar also goes through a file that it creates for itself alone.)

* A path is the list of its components, as `Path::components` gives them; the
  destination is also there as it was written, since the identity hashes that.
* `Host` is what the system and the hash are asked for.  A canonical directory
  and a name in it are an entry, and two entries are the same path only if they
  are equal.
* Names are those of Unix, and bytes.  A lock file is never removed, so a lock
  is on its path.

The hash of the identity runs over the URL and the destination without anything
between them: where a destination has no directory part, the end of the URL can
be moved to the front of the name (`jobIdentity_append`), and no other two jobs
share an identity (`job_identity_separates_iff`).
-/
import KDown.Errors
import KDown.Runs
import Mathlib.Data.List.Basic

namespace KDown

/-! ### Paths -/

/-- The bytes of a name, or of the text of a path. -/
abbrev OsStr := List UInt8

/-- The bytes of an ASCII text. -/
def ascii (text : List Char) : OsStr := text.map Char.toUInt8

/-- One step of a path (`std::path::Component`). -/
inductive PathComponent
  | rootDir
  | curDir
  | parentDir
  | normal (name : OsStr)
  deriving DecidableEq, Repr

/-- A path as its components. -/
abbrev Path := List PathComponent

/-- The slash between components. -/
def separator : UInt8 := 47

/-- What stands between two separators; nothing and `.` are skipped. -/
def componentOf (part : OsStr) : Option PathComponent :=
  if part = [] ∨ part = ascii ['.'] then none
  else if part = ascii ['.', '.'] then some .parentDir
  else some (.normal part)

/-- The root, or a `.` the path begins with. -/
def frontOf : List OsStr → Path
  | [] :: _ :: _ => [.rootDir]
  | [first] :: _ => if [first] = ascii ['.'] then [.curDir] else []
  | _ => []

/-- `Path::components`: a leading slash or dot counts, and elsewhere empty
components and dots do not. -/
def components (text : OsStr) : Path :=
  frontOf (text.splitOn separator) ++ (text.splitOn separator).filterMap componentOf

namespace Path

/-- The last component, if it is a name. -/
def fileName (path : Path) : Option OsStr :=
  match path.getLast? with
  | some (.normal name) => some name
  | _ => none

/-- The containing directory, and `.` where the path has none. -/
def parentOr (path : Path) : Path :=
  match path.dropLast with
  | [] => [.curDir]
  | c :: parent => c :: parent

/-- `Path::join`: an absolute name replaces the path. -/
def join (path : Path) (name : OsStr) : Path :=
  match components name with
  | .rootDir :: rest => .rootDir :: rest
  | rest => if path = [] then rest else path ++ rest.filter (· ≠ .curDir)

/-- `Path::with_file_name`. -/
def withFileName (path : Path) (name : OsStr) : Path :=
  join (if (fileName path).isSome then path.dropLast else path) name

end Path

/-! ### Names of artifacts -/

/-- What is asked of the system, and the hash. -/
structure Host (D : Type*) where
  canonicalize : Path → Except String D
  sha256 : OsStr → List UInt8
  display : OsStr → String
  displayPath : Path → String
  displayEntry : D × OsStr → String

/-- How the temporary file of a destination is named. -/
inductive TempFileSpec
  | siblingSuffix (suffix : OsStr)
  | explicit (path : OsStr)

/-- The suffix of a temporary file. -/
def partSuffix : OsStr := ascii ['.', 'p', 'a', 'r', 't']

/-- A temporary file stands beside its destination. -/
def TempFileSpec.default : TempFileSpec := .siblingSuffix partSuffix

/-- Resolve the concrete temp path for a destination. -/
def TempFileSpec.tempPathFor : TempFileSpec → OsStr → Path
  | .siblingSuffix suffix, destination =>
      Path.withFileName (components destination)
        ((Path.fileName (components destination)).getD destination ++ suffix)
  | .explicit path, _ => components path

/-- A lowercase hexadecimal digit. -/
def hexDigit (n : ℕ) : UInt8 := if n < 10 then (48 + n).toUInt8 else (87 + n).toUInt8

/-- Lowercase hexadecimal, two digits a byte. -/
def hex (bytes : List UInt8) : OsStr :=
  bytes.flatMap fun byte => [hexDigit (byte.toNat / 16), hexDigit (byte.toNat % 16)]

/-- The first eight bytes in hexadecimal. -/
def hex8 (bytes : List UInt8) : OsStr := hex (bytes.take 8)

/-- What a lease is on: a file name in a canonical directory. -/
structure DestinationKey (D : Type*) where
  parent : D
  fileName : OsStr
  deriving DecidableEq, Repr

namespace Host

variable {D : Type*} (host : Host D)

/-- The key of a destination: the parent directory is canonicalized, and the
file name taken as it is. -/
def resolve (destination : OsStr) : Except DownloadError (DestinationKey D) :=
  match Path.fileName (components destination) with
  | none => .error (.commit s!"destination has no file name: {host.display destination}")
  | some name =>
      let parent := Path.parentOr (components destination)
      match host.canonicalize parent with
      | .error e =>
          .error (.commit s!"cannot resolve destination parent {host.displayPath parent}: {e}")
      | .ok dir => .ok ⟨dir, name⟩

/-- The destination as error messages show it. -/
def describe (key : DestinationKey D) : String := host.displayEntry (key.parent, key.fileName)

/-- The lock file of a name, which is hashed. -/
def lockName (fileName : OsStr) : OsStr :=
  ascii ['.', 'k', 'd', 'o', 'w', 'n', '-'] ++
    ascii ['d', 'e', 's', 't', 'i', 'n', 'a', 't', 'i', 'o', 'n', '-'] ++
    hex (host.sha256 fileName) ++ ascii ['.', 'l', 'o', 'c', 'k']

/-- Where the lock file stands. -/
def lockPath (key : DestinationKey D) : D × OsStr := (key.parent, host.lockName key.fileName)

/-- Stable job identity for the checkpoint store. -/
def jobIdentity (url destination : OsStr) : OsStr := hex8 (host.sha256 (url ++ destination))

/-- The checkpoint beside the destination, named after the job's identity. -/
def sidecarName (identity : OsStr) : OsStr := identity ++ ascii ['.', 'k', 'd', 'o', 'w', 'n']

/-- The sidecar of a job identity, beside the destination. -/
def sidecarPath (url destination : OsStr) : Path :=
  Path.join (Path.parentOr (components destination)) (sidecarName (host.jobIdentity url destination))

/-- The directory entry a path names. -/
def entryOf (path : Path) : Option (D × OsStr) :=
  match Path.fileName path, host.canonicalize (Path.parentOr path) with
  | some name, .ok dir => some (dir, name)
  | _, _ => none

end Host

/-- A job that holds the lease on its destination. -/
structure LeasedJob {D : Type*} (host : Host D) where
  process : ℕ
  url : OsStr
  destination : OsStr
  key : DestinationKey D
  resolved : host.resolve destination = .ok key

namespace LeasedJob

variable {D : Type*} {host : Host D}

/-- The identity of the job that holds the lease. -/
def identity (job : LeasedJob host) : OsStr := host.jobIdentity job.url job.destination

/-- The lock file of the lease. -/
def lockPath (job : LeasedJob host) : D × OsStr := host.lockPath job.key

/-- The entries a job may create, overwrite or delete. -/
def artifacts (job : LeasedJob host) : List (D × OsStr) :=
  (host.entryOf (components job.destination)).toList ++
    (host.entryOf (TempFileSpec.default.tempPathFor job.destination)).toList ++
    (host.entryOf (host.sidecarPath job.url job.destination)).toList ++ [job.lockPath]

end LeasedJob

/-! ### Acquiring and releasing -/

/-- How the lock file answers, apart from being locked. -/
inductive LockAnswer
  | granted
  | openFails (error : String)
  | lockFails (error : String)

/-- What happens to the leases of all processes. -/
inductive LeaseEvent
  | acquire (process : ℕ) (url destination : OsStr) (answer : LockAnswer)
  | release (i : ℕ)

/-- The leases of all processes, with the registries and the locked files. -/
structure LeaseTable {D : Type*} (host : Host D) where
  leases : List (LeasedJob host)
  owned : List (ℕ × DestinationKey D)
  locks : List (D × OsStr)

namespace LeaseTable

variable {D : Type*} [DecidableEq D] {host : Host D}

/-- Open and lock the file of a key that has just been registered. -/
def lockFile (s : LeaseTable host) (key : DestinationKey D) : LockAnswer → Option DownloadError
  | .openFails error =>
      some (.commit
        s!"cannot open destination lockfile {host.displayEntry (host.lockPath key)}: {error}")
  | answer =>
      if s.locks.contains (host.lockPath key) then
        some (.destinationConflict
          s!"destination is already owned by another process: {host.describe key}")
      else
        match answer with
        | .lockFails error =>
            some (.commit
              s!"cannot lock destination lockfile {host.displayEntry (host.lockPath key)}: {error}")
        | _ => none

/-- Try to acquire exclusive ownership without waiting.  A failure takes back
the registration. -/
def acquire (s : LeaseTable host) (process : ℕ) (url destination : OsStr) (answer : LockAnswer) :
    Except DownloadError Unit × LeaseTable host :=
  match h : host.resolve destination with
  | .error e => (.error e, s)
  | .ok key =>
      if s.owned.contains (process, key) then
        (.error (.destinationConflict
          s!"destination is already owned by an active job: {host.describe key}"), s)
      else
        match s.lockFile key answer with
        | some e => (.error e, s)
        | none =>
            (.ok (), ⟨s.leases ++ [⟨process, url, destination, key, h⟩],
              s.owned ++ [(process, key)], s.locks ++ [host.lockPath key]⟩)

/-- Drop a lease: its lock and its registration. -/
def release (s : LeaseTable host) (i : ℕ) (job : LeasedJob host) : LeaseTable host :=
  ⟨s.leases.eraseIdx i, s.owned.erase (job.process, job.key), s.locks.erase job.lockPath⟩

/-- One event. -/
def step (s : LeaseTable host) : LeaseEvent → Option (LeaseTable host)
  | .acquire process url destination answer => some (s.acquire process url destination answer).2
  | .release i => (s.leases[i]?).map fun job => s.release i job

/-- Nothing is leased. -/
structure Starts (s : LeaseTable host) : Prop where
  leases : s.leases = []

end LeaseTable

/-! ### What the names look like -/

section Names

variable {name part text suffix : OsStr}

/-- No part of a path has a separator in it. -/
theorem separator_notMem (h : part ∈ text.splitOn separator) : separator ∉ part := by
  induction text generalizing part with
  | nil =>
    rw [List.splitOn_nil] at h
    cases List.mem_singleton.mp h
    exact List.not_mem_nil
  | cons c text ih =>
    rw [List.splitOn_cons_eq_if_modifyHead] at h
    split_ifs at h with hc
    · rcases List.mem_cons.mp h with rfl | h
      · exact List.not_mem_nil
      · exact ih h
    · obtain ⟨head, tail, hsplit⟩ := List.exists_cons_of_ne_nil (List.splitOn_ne_nil separator text)
      rw [hsplit, List.modifyHead_cons] at h
      rcases List.mem_cons.mp h with rfl | h
      · intro hmem
        rcases List.mem_cons.mp hmem with heq | hmem
        · exact hc (beq_iff_eq.mpr heq.symm)
        · exact ih (hsplit ▸ List.mem_cons_self) hmem
      · exact ih (hsplit ▸ List.mem_cons_of_mem _ h)

/-- A name without a separator that is more than dots is one component. -/
theorem components_name (hsep : separator ∉ name) (hlen : 2 < name.length) :
    components name = [.normal name] := by
  have hne : ∀ short : OsStr, short.length ≤ 2 → name ≠ short := by
    rintro short hshort rfl
    omega
  have hfront : frontOf [name] = [] := by
    unfold frontOf
    split
    next heq => cases (List.cons.inj heq).2
    next first _ heq => exact absurd (List.cons.inj heq).1 (hne [first] (by simp))
    · rfl
  have hpart : componentOf name = some (.normal name) := by
    unfold componentOf
    rw [if_neg, if_neg (hne _ (by simp [ascii]))]
    rintro (hnil | hdot)
    · exact hne _ (by simp) hnil
    · exact hne _ (by simp [ascii]) hdot
  unfold components
  rw [List.splitOn_eq_singleton hsep, hfront, List.filterMap_cons, hpart]
  rfl

theorem Path.join_name {path : Path} (hsep : separator ∉ name) (hlen : 2 < name.length) :
    Path.join path name = path ++ [.normal name] := by
  unfold Path.join
  rw [components_name hsep hlen]
  rcases path with _ | ⟨c, path⟩ <;> simp

theorem Path.fileName_append (path : Path) : Path.fileName (path ++ [.normal name]) = some name := by
  unfold Path.fileName
  rw [List.getLast?_concat]

/-- The name of a destination is a component of it. -/
theorem separator_notMem_fileName (h : Path.fileName (components text) = some name) :
    separator ∉ name := by
  have hlast : (components text).getLast? = some (.normal name) := by
    unfold Path.fileName at h
    split at h <;> cases h
    assumption
  rcases List.mem_append.mp (List.mem_of_getLast? hlast) with hfront | hpart
  · unfold frontOf at hfront
    split at hfront
    · cases List.mem_singleton.mp hfront
    · split_ifs at hfront
      · cases List.mem_singleton.mp hfront
      · cases hfront
    · cases hfront
  · obtain ⟨part, hmem, hpart⟩ := List.mem_filterMap.mp hpart
    unfold componentOf at hpart
    split_ifs at hpart
    · cases hpart
    · obtain rfl : part = name := PathComponent.normal.inj (Option.some.inj hpart)
      exact separator_notMem hmem

theorem hexDigit_ne_separator : ∀ n < 16, hexDigit n ≠ separator := by
  decide

theorem separator_notMem_hex (bytes : List UInt8) : separator ∉ hex bytes := by
  intro hmem
  obtain ⟨byte, -, hdigit⟩ := List.mem_flatMap.mp hmem
  have hbyte : byte.toNat < 256 := byte.toNat_lt
  rcases List.mem_cons.mp hdigit with heq | hdigit
  · exact hexDigit_ne_separator _ (by omega) heq.symm
  · exact hexDigit_ne_separator _ (by omega) (List.mem_singleton.mp hdigit).symm

/-- Names with different last bytes differ. -/
theorem append_ne_append {x y s t : OsStr} {a b : UInt8} (hab : a ≠ b) :
    x ++ (s ++ [a]) ≠ y ++ (t ++ [b]) := by
  intro heq
  rw [← List.append_assoc, ← List.append_assoc] at heq
  exact hab (List.singleton_inj.mp (List.append_inj' heq rfl).2)

end Names

namespace Host

variable {D : Type*} {host : Host D} {destination : OsStr} {key : DestinationKey D}

theorem part_ne_sidecarName (x y : OsStr) : x ++ partSuffix ≠ sidecarName y :=
  append_ne_append (s := ascii ['.', 'p', 'a', 'r']) (t := ascii ['.', 'k', 'd', 'o', 'w'])
    (by decide)

theorem part_ne_lockName (x y : OsStr) : x ++ partSuffix ≠ host.lockName y :=
  append_ne_append (s := ascii ['.', 'p', 'a', 'r']) (t := ascii ['.', 'l', 'o', 'c']) (by decide)

theorem sidecarName_ne_lockName (x y : OsStr) : sidecarName x ≠ host.lockName y :=
  append_ne_append (s := ascii ['.', 'k', 'd', 'o', 'w']) (t := ascii ['.', 'l', 'o', 'c'])
    (by decide)

theorem resolve_eq_ok (h : host.resolve destination = .ok key) :
    Path.fileName (components destination) = some key.fileName ∧
    host.canonicalize (Path.parentOr (components destination)) = .ok key.parent := by
  unfold resolve at h
  split at h
  · cases h
  next name hname =>
  dsimp only at h
  split at h <;> cases h
  next dir hdir => exact ⟨hname, hdir⟩

/-- A name in the directory of the destination. -/
theorem entryOf_sibling (h : host.resolve destination = .ok key) {name : OsStr} {path : Path}
    (hpath : Path.parentOr (path ++ [.normal name]) = Path.parentOr (components destination)) :
    host.entryOf (path ++ [.normal name]) = some (key.parent, name) := by
  unfold entryOf
  rw [Path.fileName_append, hpath, (resolve_eq_ok h).2]

theorem components_of_resolve (h : host.resolve destination = .ok key) :
    components destination = (components destination).dropLast ++ [.normal key.fileName] := by
  have hname := (resolve_eq_ok h).1
  unfold Path.fileName at hname
  split at hname <;> cases hname
  next hlast => exact (List.dropLast_append_getLast? _ hlast).symm

theorem parentOr_append (path : Path) (c c' : PathComponent) :
    Path.parentOr (path ++ [c]) = Path.parentOr (path ++ [c']) := by
  unfold Path.parentOr
  rw [List.dropLast_concat, List.dropLast_concat]

theorem entryOf_destination (h : host.resolve destination = .ok key) :
    host.entryOf (components destination) = some (key.parent, key.fileName) := by
  rw [components_of_resolve h]
  refine entryOf_sibling h ?_
  rw [← components_of_resolve h]

theorem entryOf_temp (h : host.resolve destination = .ok key) :
    host.entryOf (TempFileSpec.default.tempPathFor destination) =
      some (key.parent, key.fileName ++ partSuffix) := by
  have hname := (resolve_eq_ok h).1
  have hsep : separator ∉ key.fileName ++ partSuffix := by
    intro hmem
    rcases List.mem_append.mp hmem with hmem | hmem
    · exact separator_notMem_fileName hname hmem
    · exact absurd hmem (by decide)
  have hlen : 2 < (key.fileName ++ partSuffix).length := by
    rw [List.length_append]
    exact Nat.lt_add_left _ (by decide)
  show host.entryOf (Path.withFileName _ _) = _
  unfold Path.withFileName
  rw [hname, Option.getD_some, Option.isSome_some, if_pos rfl, Path.join_name hsep hlen]
  refine entryOf_sibling h ?_
  rw [parentOr_append _ _ (.normal key.fileName), ← components_of_resolve h]

/-- The sidecar is in the directory of its destination, under the name of its
identity. -/
theorem entryOf_sidecar (h : host.resolve destination = .ok key) (url : OsStr) :
    host.entryOf (host.sidecarPath url destination) =
      some (key.parent, sidecarName (host.jobIdentity url destination)) := by
  have hsep : separator ∉ sidecarName (host.jobIdentity url destination) := by
    intro hmem
    rcases List.mem_append.mp hmem with hmem | hmem
    · exact separator_notMem_hex _ hmem
    · exact absurd hmem (by decide)
  have hlen : 2 < (sidecarName (host.jobIdentity url destination)).length := by
    unfold sidecarName
    rw [List.length_append]
    exact Nat.lt_add_left _ (by decide)
  unfold sidecarPath
  rw [Path.join_name hsep hlen]
  refine entryOf_sibling h ?_
  unfold Path.parentOr
  rw [List.dropLast_concat]
  rcases (components destination).dropLast with _ | _ <;> rfl

/-- **The end of a URL may as well be the front of a destination.** -/
theorem jobIdentity_append (url moved destination : OsStr) :
    host.jobIdentity (url ++ moved) destination = host.jobIdentity url (moved ++ destination) := by
  unfold jobIdentity
  rw [List.append_assoc]

end Host

namespace LeasedJob

variable {D : Type*} {host : Host D} {a b : LeasedJob host}

/-- The names of the entries, in the directory of the key. -/
def names (job : LeasedJob host) : List OsStr :=
  [job.key.fileName, job.key.fileName ++ partSuffix, Host.sidecarName job.identity,
    host.lockName job.key.fileName]

theorem artifacts_eq (job : LeasedJob host) :
    job.artifacts = job.names.map fun name => (job.key.parent, name) := by
  unfold artifacts
  rw [Host.entryOf_destination job.resolved, Host.entryOf_temp job.resolved,
    Host.entryOf_sidecar job.resolved]
  rfl

/-- The destination of `a` has the name of another artifact of `b`. -/
def takesName (a b : LeasedJob host) : Bool :=
  a.key.fileName = b.key.fileName ++ partSuffix ||
    a.key.fileName = Host.sidecarName b.identity ||
    a.key.fileName = host.lockName b.key.fileName

/-- Only artifacts in one directory can be the same, and there the names decide. -/
theorem artifacts_disjoint_iff : a.artifacts.Disjoint b.artifacts ↔
    (a.key.parent = b.key.parent → a.names.Disjoint b.names) := by
  rw [artifacts_eq, artifacts_eq]
  constructor
  · intro h hparent name ha hb
    refine h (List.mem_map_of_mem ha) ?_
    rw [hparent]
    exact List.mem_map_of_mem hb
  · rintro h entry ha hb
    obtain ⟨name, hname, rfl⟩ := List.mem_map.mp ha
    obtain ⟨name', hname', heq⟩ := List.mem_map.mp hb
    obtain ⟨hparent, rfl⟩ := Prod.mk.inj heq
    exact h hparent.symm hname hname'

/-- Of different files with different lock files, only a destination can have
the name of an artifact, apart from equal identities. -/
theorem names_disjoint_iff (hlock : host.lockName a.key.fileName ≠ host.lockName b.key.fileName) :
    a.names.Disjoint b.names ↔
      a.takesName b = false ∧ b.takesName a = false ∧ a.identity ≠ b.identity := by
  have hfile : a.key.fileName ≠ b.key.fileName := fun h => hlock (congrArg _ h)
  have hsidecar : Host.sidecarName a.identity = Host.sidecarName b.identity ↔
      a.identity = b.identity := List.append_left_inj _
  simp only [names, takesName, List.disjoint_cons_left, List.disjoint_nil_left, List.mem_cons,
    List.not_mem_nil, or_false, not_or, and_true, Bool.or_eq_false_iff, decide_eq_false_iff_not,
    List.append_left_inj, hsidecar, ne_eq]
  have hps := @Host.part_ne_sidecarName
  have hpl := @Host.part_ne_lockName D host
  have hsl := @Host.sidecarName_ne_lockName D host
  constructor
  · rintro ⟨⟨-, h1, h2, h3⟩, ⟨h4, -, -, -⟩, ⟨h5, -, h6, -⟩, h7, -⟩
    exact ⟨⟨⟨h1, h2⟩, h3⟩, ⟨⟨fun h => h4 h.symm, fun h => h5 h.symm⟩, fun h => h7 h.symm⟩, h6⟩
  · rintro ⟨⟨⟨h1, h2⟩, h3⟩, ⟨⟨h4, h5⟩, h7⟩, h6⟩
    exact ⟨⟨hfile, h1, h2, h3⟩, ⟨fun h => h4 h.symm, hfile, hps _ _, hpl _ _⟩,
      ⟨fun h => h5 h.symm, fun h => hps _ _ h.symm, h6, hsl _ _⟩,
      fun h => h7 h.symm, fun h => hpl _ _ h.symm, fun h => hsl _ _ h.symm, hlock⟩

end LeasedJob

/-! ### Leases that are held together -/

namespace LeaseTable

variable {D : Type*} [DecidableEq D] {host : Host D} {s s' : LeaseTable host}

/-- Held leases have different lock files, and these are locked. -/
structure Exclusive (s : LeaseTable host) : Prop where
  locked : ∀ job ∈ s.leases, job.lockPath ∈ s.locks
  apart : s.leases.Pairwise fun a b => a.lockPath ≠ b.lockPath

/-- An attempt is refused, or takes a file that is not locked. -/
theorem acquire_cases (s : LeaseTable host) (process : ℕ) (url destination : OsStr)
    (answer : LockAnswer) :
    (s.acquire process url destination answer).2 = s ∨
    ∃ job : LeasedJob host, job.lockPath ∉ s.locks ∧
      (s.acquire process url destination answer).2 =
        ⟨s.leases ++ [job], s.owned ++ [(process, job.key)], s.locks ++ [job.lockPath]⟩ := by
  unfold acquire
  split
  · exact .inl rfl
  next key hkey =>
  split_ifs
  · exact .inl rfl
  split
  · exact .inl rfl
  next hnone =>
  refine .inr ⟨⟨process, url, destination, key, hkey⟩, fun hmem => ?_, rfl⟩
  have hcontains : s.locks.contains (host.lockPath key) = true := List.contains_iff_mem.mpr hmem
  unfold lockFile at hnone
  split at hnone
  · cases hnone
  · rw [if_pos hcontains] at hnone
    cases hnone

omit [DecidableEq D] in
theorem Exclusive.ne (h : s.Exclusive) {i j : ℕ} {a b : LeasedJob host}
    (ha : s.leases[i]? = some a) (hb : s.leases[j]? = some b) (hij : i ≠ j) :
    a.lockPath ≠ b.lockPath := by
  obtain ⟨hi, rfl⟩ := List.getElem?_eq_some_iff.mp ha
  obtain ⟨hj, rfl⟩ := List.getElem?_eq_some_iff.mp hb
  have hapart := List.pairwise_iff_getElem.mp h.apart
  rcases Nat.lt_or_gt_of_ne hij with hlt | hlt
  · exact hapart i j hi hj hlt
  · exact (hapart j i hj hi hlt).symm

/-- **Every call keeps the leases exclusive.** -/
theorem Exclusive.step (h : s.Exclusive) {e : LeaseEvent} (hs : s.step e = some s') :
    s'.Exclusive := by
  cases e with
  | acquire process url destination answer =>
    cases hs
    rcases s.acquire_cases process url destination answer with hsame | ⟨job, hfree, hnew⟩
    · rw [hsame]
      exact h
    · rw [hnew]
      refine ⟨fun other hother => ?_, ?_⟩
      · rcases List.mem_append.mp hother with hother | hother
        · exact List.mem_append_left _ (h.locked other hother)
        · cases List.mem_singleton.mp hother
          exact List.mem_append_right _ List.mem_cons_self
      · refine List.pairwise_append.mpr ⟨h.apart, List.pairwise_singleton .., ?_⟩
        intro other hother new hmem heq
        cases List.mem_singleton.mp hmem
        exact hfree (heq ▸ h.locked other hother)
  | release i =>
    obtain ⟨job, hjob, rfl⟩ := Option.map_eq_some_iff.mp hs
    have hsub : (s.leases.eraseIdx i).Sublist s.leases := List.eraseIdx_sublist ..
    refine ⟨fun other hother => ?_, h.apart.sublist hsub⟩
    -- the lease that is dropped locks another file
    have hne : other.lockPath ≠ job.lockPath := by
      obtain ⟨j, hji, hj⟩ := List.mem_eraseIdx_iff_getElem?.mp hother
      exact h.ne hj hjob hji
    exact (List.mem_erase_of_ne hne).mpr (h.locked other (hsub.subset hother))

end LeaseTable

/-- **Artifacts of leased destinations.**  In every state reached, the artifacts
of two leases that are held together are disjoint exactly if the directories
differ, or neither destination has the name of the other's temp file, sidecar or
lock file, and the identities differ. -/
theorem leased_artifacts_disjoint {D : Type*} [DecidableEq D] {host : Host D}
    {s : LeaseTable host} (h : Reach LeaseTable.step (fun _ _ => True) LeaseTable.Starts s)
    {i j : ℕ} {a b : LeasedJob host} (ha : s.leases[i]? = some a) (hb : s.leases[j]? = some b)
    (hij : i ≠ j) :
    a.artifacts.Disjoint b.artifacts ↔
      (a.key.parent = b.key.parent →
        a.takesName b = false ∧ b.takesName a = false ∧ a.identity ≠ b.identity) := by
  have hexclusive : s.Exclusive := by
    refine Reach.invariant (I := LeaseTable.Exclusive) (fun q hq => ?_)
      (fun q e q' hq _ hs => hq.step hs) h
    constructor <;> rw [hq.leases]
    · exact fun job hjob => absurd hjob List.not_mem_nil
    · exact .nil
  rw [LeasedJob.artifacts_disjoint_iff]
  refine forall_congr' fun hparent => LeasedJob.names_disjoint_iff fun hlock => ?_
  exact hexclusive.ne ha hb hij (Prod.ext hparent hlock)

/-- The 32 bytes of a number. -/
def digest (n : ℕ) : List UInt8 := (List.range 32).map fun i => (n >>> (8 * (31 - i))).toUInt8

/-- The hash at the names and texts below. -/
def digests : List (OsStr × ℕ) :=
  [(ascii ['a'], 0xca978112ca1bbdcafac231b39a23dc4da786eff8147c4e72b9807785afee48bb),
    (ascii ['b'], 0x3e23e8160039594a33894f6564e1b1348bbd7a0088d42c4acb73eeaed59c009d),
    (ascii ['a', '.', 'p', 'a', 'r', 't'],
      0xeb34f6d3ce1515f53da4bfe23b8f3b18668b33e5aa291b61c6c52b9e972fd302),
    (ascii ['x', 'a'], 0x8f26d6fe2a3dafd828081cc3ea3a5d610083c4563fb4f4fe51b2533b1ce44eb0),
    (ascii ['h', 't', 't', 'p', ':', '/', '/', 'h', '/', 'x', 'a'],
      0x415129f304017fde9f41103e99287d5fe96427f470cb9bbc52c11d4d46013920),
    (ascii ['h', 't', 't', 'p', ':', '/', '/', 'h', '/', 'x', 'b'],
      0x58f61f843a3b957aafd73fd98b2c48b5b5f9a9b96a61c04cf61d50b603936689),
    (ascii ['h', 't', 't', 'p', ':', '/', '/', 'h', '/', 'x', 'a', '.', 'p', 'a', 'r', 't'],
      0xb28f8678bce78d0d33852c7c2d1589e8b10c7b54449830047782a6aadbf0dd4d)]

/-- The bytes as characters. -/
def displayBytes (bytes : OsStr) : String :=
  String.ofList (bytes.map fun byte => Char.ofNat byte.toNat)

/-- A host whose working directory is `/d`. -/
def Host.inD : Host OsStr where
  canonicalize path := if path = [.curDir] then .ok (ascii ['/', 'd']) else .error "not found"
  sha256 bytes := digest ((digests.lookup bytes).getD 0)
  display := displayBytes
  displayPath _ := "."
  displayEntry entry := displayBytes (entry.1 ++ separator :: entry.2)

/-- The URLs `http://h/x` and `http://h/`. -/
def urlX : OsStr := ascii ['h', 't', 't', 'p', ':', '/', '/', 'h', '/', 'x']

/-- The URL of the example's server. -/
def urlRoot : OsStr := ascii ['h', 't', 't', 'p', ':', '/', '/', 'h', '/']

/-- Two jobs of one process ask for their leases. -/
def acquireBoth (url destination url' destination' : OsStr) : List LeaseEvent :=
  [.acquire 0 url destination .granted, .acquire 0 url' destination' .granted]

theorem LeaseTable.starts_empty {D : Type*} {host : Host D} :
    LeaseTable.Starts (⟨[], [], []⟩ : LeaseTable host) := ⟨rfl⟩

/-- Two files in one directory can be leased at once. -/
theorem leased_artifacts_disjoint_files :
    ∃ (s : LeaseTable Host.inD) (a b : LeasedJob Host.inD),
      runEvents LeaseTable.step ⟨[], [], []⟩
        (acquireBoth urlX (ascii ['a']) urlX (ascii ['b'])) = some s ∧
      s.leases[0]? = some a ∧ s.leases[1]? = some b ∧ a.artifacts.Disjoint b.artifacts := by
  have hend : ((runEvents LeaseTable.step (⟨[], [], []⟩ : LeaseTable Host.inD)
      (acquireBoth urlX (ascii ['a']) urlX (ascii ['b']))).bind fun s =>
      (s.leases[0]?).bind fun a => (s.leases[1]?).map fun b =>
        (a.takesName b, b.takesName a, decide (a.identity = b.identity))) =
      some (false, false, false) := by decide
  obtain ⟨s, hrun, hs⟩ := Option.bind_eq_some_iff.mp hend
  obtain ⟨a, ha, hs⟩ := Option.bind_eq_some_iff.mp hs
  obtain ⟨b, hb, hs⟩ := Option.map_eq_some_iff.mp hs
  obtain ⟨hab, hs⟩ := Prod.mk.inj hs
  obtain ⟨hba, hidentity⟩ := Prod.mk.inj hs
  have hreach : Reach LeaseTable.step (fun _ _ => True) LeaseTable.Starts s :=
    .of_run (.start LeaseTable.starts_empty) runOk_true hrun
  exact ⟨s, a, b, hrun, ha, hb, (leased_artifacts_disjoint hreach ha hb (by decide)).mpr
    fun _ => ⟨hab, hba, of_decide_eq_false hidentity⟩⟩

/-- Both leases are held, on different keys, and the entry is an artifact of
both jobs. -/
def Shared {D : Type*} [DecidableEq D] {host : Host D} (s : LeaseTable host)
    (entry : D × OsStr) : Prop :=
  Reach LeaseTable.step (fun _ _ => True) LeaseTable.Starts s ∧
    ∃ a b, s.leases[0]? = some a ∧ s.leases[1]? = some b ∧ a.key ≠ b.key ∧
      entry ∈ a.artifacts ∧ entry ∈ b.artifacts

/-- Such a run is evaluated once, up to the two leases it ends with. -/
theorem Shared.of_run {D : Type*} [DecidableEq D] {host : Host D} {e : List LeaseEvent}
    {entry : D × OsStr}
    (h : ((runEvents LeaseTable.step (⟨[], [], []⟩ : LeaseTable host) e).bind fun s =>
      (s.leases[0]?).bind fun a => (s.leases[1]?).map fun b =>
        (decide (a.key = b.key), a.artifacts.contains entry, b.artifacts.contains entry)) =
      some (false, true, true)) : ∃ s : LeaseTable host, Shared s entry := by
  obtain ⟨s, hrun, hs⟩ := Option.bind_eq_some_iff.mp h
  obtain ⟨a, ha, hs⟩ := Option.bind_eq_some_iff.mp hs
  obtain ⟨b, hb, hs⟩ := Option.map_eq_some_iff.mp hs
  obtain ⟨hkey, hs⟩ := Prod.mk.inj hs
  obtain ⟨hmem, hmem'⟩ := Prod.mk.inj hs
  exact ⟨s, .of_run (.start LeaseTable.starts_empty) runOk_true hrun, a, b, ha, hb,
    of_decide_eq_false hkey, List.contains_iff_mem.mp hmem, List.contains_iff_mem.mp hmem'⟩

/-- The temp file of `a` is the destination `a.part`; and the jobs of
`http://h/x` to `a` and of `http://h/` to `xa` have one sidecar. -/
theorem leased_artifacts_shared :
    (∃ s : LeaseTable Host.inD, Shared s (ascii ['/', 'd'], ascii ['a', '.', 'p', 'a', 'r', 't'])) ∧
    ∃ s : LeaseTable Host.inD, Shared s
      (ascii ['/', 'd'], Host.sidecarName (Host.inD.jobIdentity urlX (ascii ['a']))) := by
  constructor
  · refine Shared.of_run
      (e := acquireBoth urlX (ascii ['a']) urlX (ascii ['a', '.', 'p', 'a', 'r', 't'])) ?_
    decide
  · refine Shared.of_run (e := acquireBoth urlX (ascii ['a']) urlRoot (ascii ['x', 'a'])) ?_
    decide

/-! ### What an identity separates -/

/-- No two of these texts have the same shortened hash. -/
def Host.HashInjectiveOn {D : Type*} (host : Host D) (inputs : Set OsStr) : Prop :=
  ∀ x ∈ inputs, ∀ y ∈ inputs, hex8 (host.sha256 x) = hex8 (host.sha256 y) → x = y

/-- The end of one URL is the front of the other destination. -/
def BoundaryMoved (url destination url' destination' : OsStr) : Prop :=
  ∃ moved, moved ≠ [] ∧
    ((url = url' ++ moved ∧ destination' = moved ++ destination) ∨
      (url' = url ++ moved ∧ destination = moved ++ destination'))

/-- **Two pairs of texts run together alike** exactly if they are equal or the
boundary has moved. -/
theorem append_eq_iff_boundary {url destination url' destination' : OsStr} :
    url ++ destination = url' ++ destination' ↔
      (url = url' ∧ destination = destination') ∨
        BoundaryMoved url destination url' destination' := by
  constructor
  · intro h
    rcases List.append_eq_append_iff.mp h with ⟨moved, hurl, hdestination⟩ |
      ⟨moved, hurl, hdestination⟩ <;> rcases hmoved : moved with - | ⟨c, rest⟩
    · rw [hmoved, List.append_nil] at hurl
      rw [hmoved, List.nil_append] at hdestination
      exact .inl ⟨hurl.symm, hdestination⟩
    · exact .inr ⟨moved, by simp [hmoved], .inr ⟨hurl, hdestination⟩⟩
    · rw [hmoved, List.append_nil] at hurl
      rw [hmoved, List.nil_append] at hdestination
      exact .inl ⟨hurl, hdestination.symm⟩
    · exact .inr ⟨moved, by simp [hmoved], .inl ⟨hurl, hdestination⟩⟩
  · rintro (⟨rfl, rfl⟩ | ⟨moved, -, ⟨rfl, rfl⟩ | ⟨rfl, rfl⟩⟩)
    · rfl
    · exact List.append_assoc url' moved destination
    · exact (List.append_assoc url moved destination').symm

/-- Where the boundary moved, the URLs differ. -/
theorem BoundaryMoved.url_ne {url destination url' destination' : OsStr}
    (h : BoundaryMoved url destination url' destination') : url ≠ url' := by
  obtain ⟨moved, hne, ⟨hurl, -⟩ | ⟨hurl, -⟩⟩ := h
  · exact fun heq => hne (List.self_eq_append_right.mp (heq.symm.trans hurl))
  · exact fun heq => hne (List.self_eq_append_right.mp (heq.trans hurl))

/-- **What a job's identity separates.**  An identity separates two jobs exactly
when the end of one URL is not the front of the other destination. -/
theorem job_identity_separates_iff {D : Type*} {host : Host D} {inputs : Set OsStr}
    (hhash : host.HashInjectiveOn inputs) {url destination url' destination' : OsStr}
    (hin : url ++ destination ∈ inputs) (hin' : url' ++ destination' ∈ inputs) :
    (host.jobIdentity url destination = host.jobIdentity url' destination' →
        url = url' ∧ destination = destination') ↔
      ¬ BoundaryMoved url destination url' destination' := by
  constructor
  · intro hseparates hmoved
    have hsame : url ++ destination = url' ++ destination' :=
      append_eq_iff_boundary.mpr (.inr hmoved)
    exact hmoved.url_ne (hseparates (by rw [Host.jobIdentity, hsame, Host.jobIdentity])).1
  · intro hnot hidentity
    exact (append_eq_iff_boundary.mp (hhash _ hin _ hin' hidentity)).resolve_right hnot

/-- The jobs of `http://h/x` to `a` and to `b`. -/
theorem job_identity_separates_files :
    Host.inD.jobIdentity urlX (ascii ['a']) ≠ Host.inD.jobIdentity urlX (ascii ['b']) := by
  have hhash : Host.inD.HashInjectiveOn {urlX ++ ascii ['a'], urlX ++ ascii ['b']} := by
    rintro _ (rfl | rfl) _ (rfl | rfl) heq
    · rfl
    · exact absurd heq (by decide)
    · exact absurd heq (by decide)
    · rfl
  have hnot : ¬ BoundaryMoved urlX (ascii ['a']) urlX (ascii ['b']) := fun h => h.url_ne rfl
  intro heq
  have hsame := (job_identity_separates_iff hhash (.inl rfl) (.inr rfl)).mpr hnot heq
  exact absurd hsame.2 (by decide)

/-- The jobs of `http://h/x` to `a` and of `http://h/` to `xa`. -/
theorem job_identity_shared :
    Host.inD.jobIdentity urlX (ascii ['a']) = Host.inD.jobIdentity urlRoot (ascii ['x', 'a']) ∧
      ¬ (urlX = urlRoot ∧ ascii ['a'] = ascii ['x', 'a']) := by
  refine ⟨?_, by decide⟩
  show Host.inD.jobIdentity (urlRoot ++ ascii ['x']) (ascii ['a']) = _
  rw [Host.jobIdentity_append]
  rfl

end KDown
