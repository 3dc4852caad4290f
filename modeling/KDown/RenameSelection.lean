/-
KDown/RenameSelection.lean

The choice of a destination under automatic renaming (`select_rename_candidate`
in job/naming.rs), by many jobs in one directory at once.

A job looks for a partial download to resume, then for a free name.  It looks at
an entry, takes the lease, looks again, and asks the checkpoint store; other jobs
may act between any two of these calls, and a job that has chosen goes on to
write its partial output, to publish it or to give up.

* The parties are the renaming jobs, other holders of leases in the directory,
  and programs that know of no leases and keep their hands off leased names.
* A lease is on a name, and the partial output has another one.  The results are
  about runs in which no name is leased together with the name of its partial
  output (`PartClear`): `a` and `a.part` under lease at once would work on one
  entry.
* The checkpoint store, the resolver and the lock files answer as they like.

Every call of a selection is one step, and with each the selection comes nearer
to its end (`selectStep_fuel`).
-/
import KDown.DestinationLease
import KDown.RenameCandidates
import KDown.ResumeAdmission
import Mathlib.Data.List.ReduceOption

namespace KDown

/-- The `.part` sibling of a destination. -/
def partName (name : OsStr) : OsStr := name ++ partSuffix

theorem partName_inj {a b : OsStr} (h : partName a = partName b) : a = b :=
  List.append_cancel_right h

theorem partName_ne (name : OsStr) : partName name ≠ name := by
  intro h
  have hlength := congrArg List.length h
  rw [partName, List.length_append] at hlength
  exact absurd hlength (by simp [partSuffix, ascii])

/-- Inputs of a selection: the representable candidates in their order, and
whether partial output is resumed. -/
structure RenameJob where
  candidates : List OsStr
  resume : ResumePolicy

/-- The candidates of a base name. -/
def RenameJob.ofBase (base : BaseFileName) (cap : ℕ) (resume : ResumePolicy) : RenameJob :=
  ⟨(renameCandidateNames base cap).reduceOption, resume⟩

theorem RenameJob.mem_ofBase {base : BaseFileName} {cap : ℕ} {resume : ResumePolicy}
    {name : OsStr} : name ∈ (RenameJob.ofBase base cap resume).candidates ↔
      some name ∈ renameCandidateNames base cap :=
  List.reduceOption_mem_iff

/-- Where a job stands: the call of its selection that comes next, or what it
does with the name it has chosen. -/
inductive SelectionPhase
  /-- Is there partial output of the next candidate? -/
  | scan (rest : List OsStr)
  | scanLease (name : OsStr) (rest : List OsStr)
  /-- Under the lease: is the destination there? -/
  | scanHeld (name : OsStr) (rest : List OsStr)
  /-- Under the lease: is there a checkpoint? -/
  | scanAdmit (name : OsStr) (rest : List OsStr)
  /-- Is the next candidate there? -/
  | fresh (rest : List OsStr)
  | freshPart (name : OsStr) (rest : List OsStr)
  | freshLease (name : OsStr) (rest : List OsStr)
  | freshHeld (name : OsStr) (rest : List OsStr)
  | freshHeldPart (name : OsStr) (rest : List OsStr)
  | freshAdmit (name : OsStr) (rest : List OsStr)
  | selected (name : OsStr) (checkpoint : Bool)
  | exhausted (requiredCheckpointMissing : Bool)
  | failed (error : DownloadError)
  | writing (name : OsStr)
  | finished

/-- What is answered from outside the directory: by the resolution and the lock
of a lease, and by the checkpoint store. -/
structure RenameAnswers where
  lease : Option DownloadError
  admission : Except DownloadError Bool

/-- What a call does with the lease. -/
inductive LeaseChange
  | none
  | take (name : OsStr)
  | drop (name : OsStr)

/-- How an attempt to take a lease ends. -/
inductive LeaseTry
  | held
  | conflict
  | failed (error : DownloadError)

/-- `DestinationLease::acquire`, as far as the selection tells its errors apart. -/
def tryLease (leased : Bool) : Option DownloadError → LeaseTry
  | none => if leased then .conflict else .held
  | some (.destinationConflict _) => .conflict
  | some e => .failed e

section Select

variable (job : RenameJob) (occupied leased : OsStr → Bool) (a : RenameAnswers)

/-- The next call of a selection. -/
def selectStep : SelectionPhase → Option (SelectionPhase × LeaseChange)
  | .scan [] => some (.fresh job.candidates, .none)
  | .scan (name :: rest) =>
      some (if occupied (partName name) then .scanLease name rest else .scan rest, .none)
  | .scanLease name rest =>
      match tryLease (leased name) a.lease with
      | .held => some (.scanHeld name rest, .take name)
      | .conflict => some (.scan rest, .none)
      | .failed e => some (.failed e, .none)
  | .scanHeld name rest =>
      -- a published file: its partial output is not resumed
      if occupied name then some (.scan rest, .drop name) else some (.scanAdmit name rest, .none)
  | .scanAdmit name rest =>
      match a.admission with
      | .ok true => some (.selected name true, .none)
      | .ok false => some (.scan rest, .drop name)
      | .error e => some (.failed e, .drop name)
  | .fresh [] => some (.exhausted (job.resume = .required), .none)
  | .fresh (name :: rest) =>
      some (if occupied name then .fresh rest else .freshPart name rest, .none)
  | .freshPart name rest =>
      some (if occupied (partName name) then .fresh rest else .freshLease name rest, .none)
  | .freshLease name rest =>
      match tryLease (leased name) a.lease with
      | .held => some (.freshHeld name rest, .take name)
      | .conflict => some (.fresh rest, .none)
      | .failed e => some (.failed e, .none)
  | .freshHeld name rest =>
      if occupied name then some (.fresh rest, .drop name)
      else some (.freshHeldPart name rest, .none)
  | .freshHeldPart name rest =>
      if occupied (partName name) then some (.fresh rest, .drop name)
      else some (.freshAdmit name rest, .none)
  | .freshAdmit name _ =>
      match a.admission with
      | .ok true => some (.selected name true, .none)
      | .ok false =>
          if job.resume = .required then some (.exhausted true, .drop name)
          else some (.selected name false, .none)
      | .error e => some (.failed e, .drop name)
  | _ => none

end Select

/-- Where a selection begins. -/
def RenameJob.begin (job : RenameJob) : SelectionPhase :=
  if job.resume = .never then .fresh job.candidates else .scan job.candidates

namespace SelectionPhase

/-- The name under lease. -/
def holds : SelectionPhase → Option OsStr
  | .scanHeld name _ => some name
  | .scanAdmit name _ => some name
  | .freshHeld name _ => some name
  | .freshHeldPart name _ => some name
  | .freshAdmit name _ => some name
  | .selected name _ => some name
  | .writing name => some name
  | _ => none

/-- The name that is about to be leased. -/
def asks : SelectionPhase → Option OsStr
  | .scanLease name _ => some name
  | .freshLease name _ => some name
  | _ => none

/-- The selection has its result. -/
def ended : SelectionPhase → Bool
  | .selected _ _ => true
  | .exhausted _ => true
  | .failed _ => true
  | .writing _ => true
  | .finished => true
  | _ => false

end SelectionPhase

/-! ### The directory -/

/-- Who holds a lease. -/
inductive LeaseHolder
  | job (j : ℕ)
  /-- A job that does not rename. -/
  | other
  deriving DecidableEq

/-- The jobs, the entries of the directory, and the leases. -/
structure RenameState where
  phases : ℕ → SelectionPhase
  occupied : OsStr → Bool
  leased : OsStr → Option LeaseHolder

/-- What a party does in the directory. -/
inductive RenameEvent
  | select (j : ℕ) (answers : RenameAnswers)
  /-- The partial output is created, or opened for resumption. -/
  | begin (j : ℕ)
  /-- The partial output is linked to the destination and its own name removed,
  if that succeeds. -/
  | publish (j : ℕ) (removed : Bool)
  /-- The job ends without publishing, and keeps its partial output or not. -/
  | giveUp (j : ℕ) (kept : Bool)
  | otherAcquire (name : OsStr)
  /-- A job that does not rename changes one of its own two entries. -/
  | otherChange (name : OsStr) (part present : Bool)
  | otherRelease (name : OsStr)
  /-- A program that knows of no leases. -/
  | outside (name : OsStr) (present : Bool)

/-- The event is one of a renaming job. -/
def RenameEvent.ofJob : RenameEvent → Bool
  | .select _ _ | .begin _ | .publish _ _ | .giveUp _ _ => true
  | .otherAcquire _ | .otherChange _ _ _ | .otherRelease _ | .outside _ _ => false

/-- Does the event belong to the selection of the job? -/
def RenameEvent.selects (j : ℕ) : RenameEvent → Bool
  | .select k _ => k = j
  | _ => false

namespace RenameState

/-- The job moves on. -/
def setPhase (s : RenameState) (j : ℕ) (p : SelectionPhase) : RenameState :=
  { s with phases := Function.update s.phases j p }

/-- The entry appears or goes. -/
def setEntry (s : RenameState) (name : OsStr) (present : Bool) : RenameState :=
  { s with occupied := Function.update s.occupied name present }

/-- The lease changes hands. -/
def setLease (s : RenameState) (name : OsStr) (holder : Option LeaseHolder) : RenameState :=
  { s with leased := Function.update s.leased name holder }

/-- The change of a lease that a call asks for. -/
def changeLease (s : RenameState) (j : ℕ) : LeaseChange → RenameState
  | .none => s
  | .take name => s.setLease name (some (.job j))
  | .drop name => s.setLease name none

/-- The lease goes with the job. -/
def endJob (s : RenameState) (j : ℕ) (name : OsStr) : RenameState :=
  (s.setPhase j .finished).setLease name none

/-- One event. -/
def step (jobs : ℕ → RenameJob) (s : RenameState) : RenameEvent → Option RenameState
  | .select j answers =>
      (selectStep (jobs j) s.occupied (fun name => (s.leased name).isSome) answers (s.phases j)).map
        fun (p, change) => (s.setPhase j p).changeLease j change
  | .begin j =>
      match s.phases j with
      | .selected name _ => some ((s.setPhase j (.writing name)).setEntry (partName name) true)
      | _ => none
  | .publish j removed =>
      match s.phases j with
      | .writing name =>
          -- no-replace: an occupied destination is a conflict
          if s.occupied name then some (s.endJob j name)
          else some (((s.setEntry name true).setEntry (partName name) !removed).endJob j name)
      | _ => none
  | .giveUp j kept =>
      match s.phases j with
      | .selected name _ => some (s.endJob j name)
      | .writing name => some ((s.setEntry (partName name) kept).endJob j name)
      | _ => none
  | .otherAcquire name =>
      if s.leased name = none then some (s.setLease name (some .other)) else none
  | .otherChange name part present =>
      if s.leased name = some .other then
        some (s.setEntry (if part then partName name else name) present)
      else none
  | .otherRelease name => if s.leased name = some .other then some (s.setLease name none) else none
  | .outside name present => some (s.setEntry name present)

/-- No selection has begun, and nothing is leased. -/
structure Starts (jobs : ℕ → RenameJob) (s : RenameState) : Prop where
  phases : ∀ j, s.phases j = (jobs j).begin
  leased : ∀ name, s.leased name = none

/-- No leased name is that of the other's partial output. -/
def PartClear (s : RenameState) (name : OsStr) : Prop :=
  ∀ other, (s.leased other).isSome = true → partName other ≠ name ∧ partName name ≠ other

/-- Who takes a lease leaves the partial outputs of the others alone, and who
takes none leaves the leased names alone. -/
def Cooperative (s : RenameState) : RenameEvent → Prop
  | .select j _ => ∀ name, (s.phases j).asks = some name → s.PartClear name
  | .otherAcquire name => s.PartClear name
  | .outside name _ =>
      ∀ other, (s.leased other).isSome = true → name ≠ other ∧ name ≠ partName other
  | _ => True

end RenameState

/-! ### One call of a selection -/

namespace SelectionPhase

/-- What a job has seen of the name under its lease. -/
def Free (occupied : OsStr → Bool) : SelectionPhase → Prop
  | .scanAdmit name _ => occupied name = false
  | .freshHeldPart name _ => occupied name = false
  | .freshAdmit name _ => occupied name = false ∧ occupied (partName name) = false
  | .selected name checkpoint =>
      occupied name = false ∧ (checkpoint = false → occupied (partName name) = false)
  | .writing name => occupied name = false
  | _ => True

/-- The candidates that are still in play. -/
def names : SelectionPhase → List OsStr
  | .scan rest => rest
  | .scanLease name rest => name :: rest
  | .scanHeld name rest => name :: rest
  | .scanAdmit name rest => name :: rest
  | .fresh rest => rest
  | .freshPart name rest => name :: rest
  | .freshLease name rest => name :: rest
  | .freshHeld name rest => name :: rest
  | .freshHeldPart name rest => name :: rest
  | .freshAdmit name rest => name :: rest
  | .selected name _ => [name]
  | .writing name => [name]
  | _ => []

theorem mem_names_of_holds {p : SelectionPhase} {name : OsStr} (h : p.holds = some name) :
    name ∈ p.names := by
  cases p <;> cases h <;> exact List.mem_cons_self

theorem mem_names_of_asks {p : SelectionPhase} {name : OsStr} (h : p.asks = some name) :
    name ∈ p.names := by
  cases p <;> cases h <;> exact List.mem_cons_self

/-- How many calls a selection can still make: four for a candidate of the scan,
six for one that may be fresh. -/
def fuel (job : RenameJob) : SelectionPhase → ℕ
  | .scan rest => 4 * rest.length + 6 * job.candidates.length + 2
  | .scanLease _ rest => 4 * rest.length + 6 * job.candidates.length + 5
  | .scanHeld _ rest => 4 * rest.length + 6 * job.candidates.length + 4
  | .scanAdmit _ rest => 4 * rest.length + 6 * job.candidates.length + 3
  | .fresh rest => 6 * rest.length + 1
  | .freshPart _ rest => 6 * rest.length + 6
  | .freshLease _ rest => 6 * rest.length + 5
  | .freshHeld _ rest => 6 * rest.length + 4
  | .freshHeldPart _ rest => 6 * rest.length + 3
  | .freshAdmit _ rest => 6 * rest.length + 2
  | _ => 0

end SelectionPhase

/-- What a call does with leases. -/
inductive LeaseMove (leased : OsStr → Bool) (p p' : SelectionPhase) : LeaseChange → Prop
  | keep : p'.holds = p.holds → LeaseMove leased p p' .none
  | take {name} : p.asks = some name → leased name = false → p.holds = none →
      p'.holds = some name → LeaseMove leased p p' (.take name)
  | drop {name} : p.holds = some name → p'.holds = none → LeaseMove leased p p' (.drop name)

/-- What one call does to the lease, to what the job has seen, to the candidates
in play and to the calls that are left. -/
structure SelectSpec (job : RenameJob) (occupied leased : OsStr → Bool) (p p' : SelectionPhase)
    (change : LeaseChange) : Prop where
  lease : LeaseMove leased p p' change
  free : p.Free occupied → p'.Free occupied
  names : ∀ name ∈ p'.names, name ∈ p.names ∨ name ∈ job.candidates
  fuel : p'.fuel job < p.fuel job

theorem tryLease_held {leased : Bool} {fault : Option DownloadError}
    (h : tryLease leased fault = .held) : leased = false := by
  rcases fault with - | e
  · rw [tryLease] at h
    split_ifs at h with hleased
    exact Bool.eq_false_iff.mpr hleased
  · cases e <;> cases h

section SelectStep

variable {job : RenameJob} {occupied leased : OsStr → Bool} {a : RenameAnswers}
  {p p' : SelectionPhase} {change : LeaseChange}

/-- The candidate is left behind. -/
theorem names_of_rest {name : OsStr} {rest : List OsStr} (hp : p.names = name :: rest) :
    ∀ n ∈ rest, n ∈ p.names ∨ n ∈ job.candidates := by
  intro n hn
  rw [hp]
  exact .inl (List.mem_cons_of_mem _ hn)

/-- What one call can be. -/
theorem selectStep_spec (h : selectStep job occupied leased a p = some (p', change)) :
    SelectSpec job occupied leased p p' change := by
  cases p with
  | scan rest =>
    rcases rest with - | ⟨name, rest⟩
    · cases h
      exact ⟨.keep rfl, fun _ => trivial, fun _ hn => .inr hn,
        by simp only [SelectionPhase.fuel]; omega⟩
    · rw [selectStep] at h
      cases h
      split_ifs
      · exact ⟨.keep rfl, fun _ => trivial, fun _ hn => .inl hn,
          by simp only [SelectionPhase.fuel, List.length_cons]; omega⟩
      · exact ⟨.keep rfl, fun _ => trivial, names_of_rest rfl,
          by simp only [SelectionPhase.fuel, List.length_cons]; omega⟩
  | scanLease name rest =>
    rw [selectStep] at h
    split at h
    · next hheld =>
      cases h
      exact ⟨.take rfl (tryLease_held hheld) rfl rfl, fun _ => trivial, fun _ hn => .inl hn,
        by simp only [SelectionPhase.fuel]; omega⟩
    · cases h
      exact ⟨.keep rfl, fun _ => trivial, names_of_rest rfl,
        by simp only [SelectionPhase.fuel]; omega⟩
    · cases h
      exact ⟨.keep rfl, fun _ => trivial, nofun, by simp only [SelectionPhase.fuel]; omega⟩
  | scanHeld name rest =>
    rw [selectStep] at h
    split_ifs at h with hoccupied <;> cases h
    · exact ⟨.drop rfl rfl, fun _ => trivial, names_of_rest rfl,
        by simp only [SelectionPhase.fuel]; omega⟩
    · exact ⟨.keep rfl, fun _ => Bool.eq_false_iff.mpr hoccupied, fun _ hn => .inl hn,
        by simp only [SelectionPhase.fuel]; omega⟩
  | scanAdmit name rest =>
    rw [selectStep] at h
    split at h <;> cases h
    · exact ⟨.keep rfl, fun hfree => ⟨hfree, nofun⟩,
        fun n hn => .inl (List.mem_singleton.mp hn ▸ List.mem_cons_self),
        by simp only [SelectionPhase.fuel]; omega⟩
    · exact ⟨.drop rfl rfl, fun _ => trivial, names_of_rest rfl,
        by simp only [SelectionPhase.fuel]; omega⟩
    · exact ⟨.drop rfl rfl, fun _ => trivial, nofun, by simp only [SelectionPhase.fuel]; omega⟩
  | fresh rest =>
    rcases rest with - | ⟨name, rest⟩
    · cases h
      exact ⟨.keep rfl, fun _ => trivial, nofun, by simp only [SelectionPhase.fuel]; omega⟩
    · rw [selectStep] at h
      cases h
      split_ifs
      · exact ⟨.keep rfl, fun _ => trivial, names_of_rest rfl,
          by simp only [SelectionPhase.fuel, List.length_cons]; omega⟩
      · exact ⟨.keep rfl, fun _ => trivial, fun _ hn => .inl hn,
          by simp only [SelectionPhase.fuel, List.length_cons]; omega⟩
  | freshPart name rest =>
    rw [selectStep] at h
    cases h
    split_ifs
    · exact ⟨.keep rfl, fun _ => trivial, names_of_rest rfl,
        by simp only [SelectionPhase.fuel]; omega⟩
    · exact ⟨.keep rfl, fun _ => trivial, fun _ hn => .inl hn,
        by simp only [SelectionPhase.fuel]; omega⟩
  | freshLease name rest =>
    rw [selectStep] at h
    split at h
    · next hheld =>
      cases h
      exact ⟨.take rfl (tryLease_held hheld) rfl rfl, fun _ => trivial, fun _ hn => .inl hn,
        by simp only [SelectionPhase.fuel]; omega⟩
    · cases h
      exact ⟨.keep rfl, fun _ => trivial, names_of_rest rfl,
        by simp only [SelectionPhase.fuel]; omega⟩
    · cases h
      exact ⟨.keep rfl, fun _ => trivial, nofun, by simp only [SelectionPhase.fuel]; omega⟩
  | freshHeld name rest =>
    rw [selectStep] at h
    split_ifs at h with hoccupied <;> cases h
    · exact ⟨.drop rfl rfl, fun _ => trivial, names_of_rest rfl,
        by simp only [SelectionPhase.fuel]; omega⟩
    · exact ⟨.keep rfl, fun _ => Bool.eq_false_iff.mpr hoccupied, fun _ hn => .inl hn,
        by simp only [SelectionPhase.fuel]; omega⟩
  | freshHeldPart name rest =>
    rw [selectStep] at h
    split_ifs at h with hoccupied <;> cases h
    · exact ⟨.drop rfl rfl, fun _ => trivial, names_of_rest rfl,
        by simp only [SelectionPhase.fuel]; omega⟩
    · exact ⟨.keep rfl, fun hfree => ⟨hfree, Bool.eq_false_iff.mpr hoccupied⟩,
        fun _ hn => .inl hn, by simp only [SelectionPhase.fuel]; omega⟩
  | freshAdmit name rest =>
    have hself : ∀ n ∈ [name], n ∈ (SelectionPhase.freshAdmit name rest).names ∨
        n ∈ job.candidates := fun n hn => .inl (List.mem_singleton.mp hn ▸ List.mem_cons_self)
    rw [selectStep] at h
    split at h
    · cases h
      exact ⟨.keep rfl, fun hfree => ⟨hfree.1, nofun⟩, hself,
        by simp only [SelectionPhase.fuel]; omega⟩
    · split_ifs at h <;> cases h
      · exact ⟨.drop rfl rfl, fun _ => trivial, nofun, by simp only [SelectionPhase.fuel]; omega⟩
      · exact ⟨.keep rfl, fun hfree => ⟨hfree.1, fun _ => hfree.2⟩, hself,
          by simp only [SelectionPhase.fuel]; omega⟩
    · cases h
      exact ⟨.drop rfl rfl, fun _ => trivial, nofun, by simp only [SelectionPhase.fuel]; omega⟩
  | _ => cases h

end SelectStep

/-! ### What holds between the calls -/

/-- What a job has seen depends on its own two entries. -/
theorem SelectionPhase.Free.congr {p : SelectionPhase} {occupied occupied' : OsStr → Bool}
    (h : p.Free occupied) (heq : ∀ name, p.holds = some name →
      occupied' name = occupied name ∧ occupied' (partName name) = occupied (partName name)) :
    p.Free occupied' := by
  cases p with
  | scanAdmit name rest => exact (heq name rfl).1.trans h
  | freshHeldPart name rest => exact (heq name rfl).1.trans h
  | freshAdmit name rest => exact ⟨(heq name rfl).1.trans h.1, (heq name rfl).2.trans h.2⟩
  | selected name checkpoint =>
    exact ⟨(heq name rfl).1.trans h.1, fun hc => (heq name rfl).2.trans (h.2 hc)⟩
  | writing name => exact (heq name rfl).1.trans h
  | _ => trivial

namespace RenameState

/-- The leases are those of the phases and stand apart, and each job's view of
its own name holds. -/
structure Inv (jobs : ℕ → RenameJob) (s : RenameState) : Prop where
  leased : ∀ j name, (s.phases j).holds = some name ↔ s.leased name = some (.job j)
  clear : ∀ name other, (s.leased name).isSome = true → (s.leased other).isSome = true →
    partName name ≠ other
  free : ∀ j, (s.phases j).Free s.occupied
  names : ∀ j, ∀ name ∈ (s.phases j).names, name ∈ (jobs j).candidates

variable {jobs : ℕ → RenameJob} {s s' : RenameState} {j : ℕ} {name : OsStr}

theorem Inv.start (h : s.Starts jobs) : s.Inv jobs := by
  have hbegin : ∀ j, (s.phases j).holds = none ∧ (s.phases j).Free s.occupied ∧
      (s.phases j).names = (jobs j).candidates := by
    intro j
    rw [h.phases, RenameJob.begin]
    split_ifs <;> exact ⟨rfl, trivial, rfl⟩
  refine ⟨fun j name => ?_, fun name _ hname => ?_, fun j => (hbegin j).2.1, fun j => ?_⟩
  · rw [(hbegin j).1, h.leased]
    exact iff_of_false nofun nofun
  · rw [h.leased] at hname
    cases hname
  · rw [(hbegin j).2.2]
    exact fun _ hn => hn

/-- The entries behind two leases are four. -/
theorem Inv.apart (h : s.Inv jobs) {other : OsStr} (hname : (s.leased name).isSome = true)
    (hother : (s.leased other).isSome = true) (hne : name ≠ other) {path : OsStr}
    (hpath : path = name ∨ path = partName name) : path ≠ other ∧ path ≠ partName other := by
  rcases hpath with rfl | rfl
  · exact ⟨hne, fun heq => h.clear other path hother hname heq.symm⟩
  · exact ⟨h.clear name other hname hother, fun heq => hne (partName_inj heq)⟩

/-- Changes at the entries of one lease are not seen under the others. -/
theorem Inv.free_of (h : s.Inv jobs) {k : ℕ} {occupied : OsStr → Bool}
    (hname : (s.leased name).isSome = true) (hk : ∀ n, (s.phases k).holds = some n → name ≠ n)
    (hentries : ∀ path, occupied path ≠ s.occupied path → path = name ∨ path = partName name) :
    (s.phases k).Free occupied := by
  refine (h.free k).congr fun n hn => ?_
  have hleased : (s.leased n).isSome = true := by
    rw [(h.leased k n).mp hn]
    rfl
  constructor
  · by_contra hchanged
    exact (h.apart hname hleased (hk n hn) (hentries n hchanged)).1 rfl
  · by_contra hchanged
    exact (h.apart hname hleased (hk n hn) (hentries _ hchanged)).2 rfl

theorem isSome_of_holds (h : s.Inv jobs) (hj : (s.phases j).holds = some name) :
    (s.leased name).isSome = true := by
  rw [(h.leased j name).mp hj]
  rfl

/-- A job moves on: it takes or drops its lease, and changes no entries but its
own. -/
theorem Inv.move (h : s.Inv jobs) {p : SelectionPhase} {change : LeaseChange}
    (hphases : s'.phases = Function.update s.phases j p)
    (hmove : LeaseMove (fun name => (s.leased name).isSome) (s.phases j) p change)
    (hleased : s'.leased = (s.changeLease j change).leased)
    (hclear : ∀ name, (s.phases j).asks = some name → s.PartClear name)
    (hentries : ∀ path, s'.occupied path ≠ s.occupied path →
      ∃ name, (s.phases j).holds = some name ∧ (path = name ∨ path = partName name))
    (hfree : p.Free s'.occupied) (hnames : ∀ name ∈ p.names, name ∈ (jobs j).candidates) :
    s'.Inv jobs := by
  have hself : s'.phases j = p := by rw [hphases, Function.update_self]
  have hothers : ∀ k, k ≠ j → s'.phases k = s.phases k := fun k hk => by
    rw [hphases, Function.update_of_ne hk]
  refine ⟨fun k n => ?_, fun n m hn hm => ?_, fun k => ?_, fun k => ?_⟩
  · -- the lease follows the phase
    rw [hleased]
    cases hmove with
    | keep hholds =>
      show _ ↔ s.leased n = _
      rw [← h.leased]
      by_cases hk : k = j
      · rw [hk, hself, hholds]
      · rw [hothers k hk]
    | @take name hasks hfree hnone hholds =>
      show _ ↔ Function.update s.leased name (some (.job j)) n = _
      by_cases hk : k = j
      · subst hk
        rw [hself, hholds, Function.update_apply, Option.some_inj]
        split_ifs with hn
        · exact iff_of_true hn.symm rfl
        · rw [← h.leased, hnone]
          exact iff_of_false (Ne.symm hn) nofun
      · rw [hothers k hk, h.leased, Function.update_apply]
        split_ifs with hn
        · subst hn
          refine iff_of_false (fun hk' => ?_) fun heq => hk ?_
          · rw [hk'] at hfree
            cases hfree
          · cases heq
            rfl
        · exact Iff.rfl
    | @drop name hheld hnone =>
      show _ ↔ Function.update s.leased name none n = _
      by_cases hk : k = j
      · subst hk
        rw [hself, hnone, Function.update_apply]
        split_ifs with hn
        · exact Iff.rfl.trans (by simp)
        · rw [← h.leased, hheld, Option.some_inj]
          exact iff_of_false nofun (Ne.symm hn)
      · rw [hothers k hk, h.leased, Function.update_apply]
        split_ifs with hn
        · subst hn
          rw [(h.leased j n).mp hheld]
          refine iff_of_false (fun heq => hk ?_) nofun
          cases heq
          rfl
        · exact Iff.rfl
  · -- a lease that is new was asked for
    rw [hleased] at hn hm
    have hold : ∀ x, ((s.changeLease j change).leased x).isSome = true →
        (s.leased x).isSome = true ∨ (s.phases j).asks = some x := by
      intro x hx
      cases hmove with
      | keep => exact .inl hx
      | @take name hasks =>
        have hupdate : (Function.update s.leased name (some (.job j)) x).isSome = true := hx
        by_cases hxn : x = name
        · exact .inr (hxn ▸ hasks)
        · rw [Function.update_of_ne hxn] at hupdate
          exact .inl hupdate
      | @drop name =>
        have hupdate : (Function.update s.leased name none x).isSome = true := hx
        by_cases hxn : x = name
        · rw [hxn, Function.update_self] at hupdate
          cases hupdate
        · rw [Function.update_of_ne hxn] at hupdate
          exact .inl hupdate
    rcases hold n hn with hn | hn <;> rcases hold m hm with hm | hm
    · exact h.clear n m hn hm
    · exact (hclear m hm n hn).1
    · exact (hclear n hn m hm).2
    · rw [hn] at hm
      rw [← Option.some.inj hm]
      exact partName_ne n
  · by_cases hk : k = j
    · rw [hk, hself]
      exact hfree
    · rw [hothers k hk]
      rcases hj : (s.phases j).holds with - | name
      · refine (h.free k).congr fun n _ => ?_
        have hsame : ∀ path, s'.occupied path = s.occupied path := by
          intro path
          by_contra hchanged
          obtain ⟨m, hm, -⟩ := hentries path hchanged
          rw [hj] at hm
          cases hm
        exact ⟨hsame n, hsame _⟩
      · refine h.free_of (isSome_of_holds h hj) (fun n hn heq => hk ?_) fun path hchanged => ?_
        · have hleasedk := (h.leased k n).mp hn
          rw [← heq, (h.leased j name).mp hj] at hleasedk
          cases hleasedk
          rfl
        · obtain ⟨m, hm, hpath⟩ := hentries path hchanged
          rw [hj] at hm
          rwa [Option.some.inj hm]
  · by_cases hk : k = j
    · rw [hk, hself]
      exact hnames
    · rw [hothers k hk]
      exact h.names k

/-- Others change entries that no job has under lease. -/
theorem Inv.change (h : s.Inv jobs) (path : OsStr) (present : Bool)
    (hpath : ∀ k n, (s.phases k).holds = some n → path ≠ n ∧ path ≠ partName n) :
    (s.setEntry path present).Inv jobs := by
  refine ⟨h.leased, h.clear, fun k => (h.free k).congr fun n hn => ?_, h.names⟩
  obtain ⟨hname, hpart⟩ := hpath k n hn
  exact ⟨Function.update_of_ne (Ne.symm hname) _ _, Function.update_of_ne (Ne.symm hpart) _ _⟩

/-- Somebody else takes a lease whose partial output is not there. -/
theorem Inv.acquire (h : s.Inv jobs) (hfree : s.leased name = none) (hclear : s.PartClear name) :
    (s.setLease name (some .other)).Inv jobs := by
  have hold : ∀ x, ((s.setLease name (some .other)).leased x).isSome = true →
      (s.leased x).isSome = true ∨ x = name := by
    intro x hx
    have hupdate : (Function.update s.leased name (some .other) x).isSome = true := hx
    by_cases hxn : x = name
    · exact .inr hxn
    · rw [Function.update_of_ne hxn] at hupdate
      exact .inl hupdate
  refine ⟨fun k n => ?_, fun n m hn hm => ?_, h.free, h.names⟩
  · show (s.phases k).holds = some n ↔ Function.update s.leased name (some .other) n = _
    rw [Function.update_apply]
    split_ifs with hn
    · rw [h.leased, hn, hfree]
      exact iff_of_false nofun nofun
    · exact h.leased k n
  · rcases hold n hn with hleased | rfl <;> rcases hold m hm with hleased' | rfl
    · exact h.clear n m hleased hleased'
    · exact (hclear n hleased).1
    · exact (hclear m hleased').2
    · exact partName_ne _

theorem Inv.release (h : s.Inv jobs) (hother : s.leased name = some .other) :
    (s.setLease name none).Inv jobs := by
  have hold : ∀ x, ((s.setLease name none).leased x).isSome = true →
      (s.leased x).isSome = true := by
    intro x hx
    have hupdate : (Function.update s.leased name none x).isSome = true := hx
    by_cases hxn : x = name
    · rw [hxn, Function.update_self] at hupdate
      cases hupdate
    · rwa [Function.update_of_ne hxn] at hupdate
  refine ⟨fun k n => ?_, fun n m hn hm => h.clear n m (hold n hn) (hold m hm), h.free, h.names⟩
  show (s.phases k).holds = some n ↔ Function.update s.leased name none n = _
  rw [Function.update_apply]
  split_ifs with hn
  · rw [h.leased, hn, hother]
    exact iff_of_false nofun nofun
  · exact h.leased k n

/-- A name held by a job that does not rename stands apart from the names of the
jobs. -/
theorem Inv.apart_of_other (h : s.Inv jobs) (hother : s.leased name = some .other) {path : OsStr}
    (hpath : path = name ∨ path = partName name) {k : ℕ} {n : OsStr}
    (hn : (s.phases k).holds = some n) : path ≠ n ∧ path ≠ partName n := by
  refine h.apart ?_ (isSome_of_holds h hn) (fun heq => ?_) hpath
  · rw [hother]
    rfl
  · rw [heq, (h.leased k n).mp hn] at hother
    cases hother

/-- The job ends: its lease goes, and its entries may have changed. -/
theorem Inv.ended (h : s.Inv jobs) (hj : (s.phases j).holds = some name)
    {occupied : OsStr → Bool}
    (hentries : ∀ path, occupied path ≠ s.occupied path → path = name ∨ path = partName name) :
    (({ s with occupied := occupied } : RenameState).endJob j name).Inv jobs := by
  refine h.move (p := .finished) rfl (.drop hj rfl) rfl (fun n hn => ?_) (fun path hpath => ?_)
    trivial nofun
  · cases hp : s.phases j <;> rw [hp] at hj hn <;> cases hj <;> cases hn
  · exact ⟨name, hj, hentries path hpath⟩

/-- **The invariant is kept** by the calls of the jobs and by cooperative
neighbours. -/
theorem Inv.step {e : RenameEvent} (h : s.Inv jobs) (hok : s.Cooperative e)
    (hstep : step jobs s e = some s') : s'.Inv jobs := by
  cases e with
  | select j answers =>
    obtain ⟨⟨p, change⟩, hselect, rfl⟩ := Option.map_eq_some_iff.mp hstep
    have hspec := selectStep_spec hselect
    have hkept : (((s.setPhase j p).changeLease j change).phases = Function.update s.phases j p ∧
        ((s.setPhase j p).changeLease j change).occupied = s.occupied) ∧
        ((s.setPhase j p).changeLease j change).leased = (s.changeLease j change).leased := by
      cases change <;> exact ⟨⟨rfl, rfl⟩, rfl⟩
    refine h.move hkept.1.1 hspec.lease hkept.2 hok (fun path hpath => ?_) ?_ ?_
    · exact absurd (congrFun hkept.1.2 path) hpath
    · rw [hkept.1.2]
      exact hspec.free (h.free j)
    · intro name hname
      exact (hspec.names name hname).elim (h.names j name) id
  | begin j =>
    rw [RenameState.step] at hstep
    split at hstep
    · next name checkpoint hp =>
      cases hstep
      have hfree := h.free j
      rw [hp] at hfree
      have hheld : (s.phases j).holds = some name := by rw [hp]; rfl
      refine h.move (p := .writing name) rfl (.keep hheld.symm) rfl (fun n hn => ?_)
        (fun path hpath => ?_) ?_ fun n hn => ?_
      · rw [hp] at hn
        cases hn
      · refine ⟨name, hheld, .inr ?_⟩
        by_contra hne
        exact hpath (Function.update_of_ne hne _ _)
      · exact (Function.update_of_ne (Ne.symm (partName_ne name)) _ _).trans hfree.1
      · refine h.names j n ?_
        rw [hp]
        exact hn
    · cases hstep
  | publish j removed =>
    rw [RenameState.step] at hstep
    split at hstep
    · next name hp =>
      have hheld : (s.phases j).holds = some name := by rw [hp]; rfl
      split_ifs at hstep <;> cases hstep
      · exact h.ended hheld fun path hpath => absurd rfl hpath
      · refine h.ended hheld fun path hpath => ?_
        by_contra hne
        rw [not_or] at hne
        exact hpath ((Function.update_of_ne hne.2 _ _).trans (Function.update_of_ne hne.1 _ _))
    · cases hstep
  | giveUp j kept =>
    rw [RenameState.step] at hstep
    split at hstep
    · next name checkpoint hp =>
      cases hstep
      exact h.ended (by rw [hp]; rfl) fun path hpath => absurd rfl hpath
    · next name hp =>
      cases hstep
      refine h.ended (by rw [hp]; rfl) fun path hpath => .inr ?_
      by_contra hne
      exact hpath (Function.update_of_ne hne _ _)
    · cases hstep
  | otherAcquire name =>
    rw [RenameState.step] at hstep
    split_ifs at hstep with hfree
    cases hstep
    exact h.acquire hfree hok
  | otherChange name part present =>
    rw [RenameState.step] at hstep
    split_ifs at hstep with hother hpart
    · cases hstep
      exact h.change _ _ fun k n hn => h.apart_of_other hother (.inr rfl) hn
    · cases hstep
      exact h.change _ _ fun k n hn => h.apart_of_other hother (.inl rfl) hn
  | otherRelease name =>
    rw [RenameState.step] at hstep
    split_ifs at hstep with hother
    cases hstep
    exact h.release hother
  | outside name present =>
    cases hstep
    exact h.change _ _ fun k n hn => hok n (isSome_of_holds h hn)

/-- The invariant holds in every run. -/
theorem Inv.reach (h : Reach (RenameState.step jobs) Cooperative (Starts jobs) s) : s.Inv jobs :=
  h.invariant (fun _ => .start) fun _ _ _ hinv hok hstep => hinv.step hok hstep

/-- **Renaming jobs never collide**: a name is held by one job at most, a job
that has chosen a name has chosen one of its own candidates, and until it
publishes there the destination stays absent.  A job of a base name holds none
but the candidate names of that base. -/
theorem rename_selection_safe
    (h : Reach (RenameState.step jobs) Cooperative (Starts jobs) s) :
    (∀ j k name, (s.phases j).holds = some name → (s.phases k).holds = some name → j = k) ∧
      (∀ j name, (s.phases j).holds = some name ↔ s.leased name = some (.job j)) ∧
      (∀ j name checkpoint, s.phases j = .selected name checkpoint →
        name ∈ (jobs j).candidates ∧ s.occupied name = false ∧
          (checkpoint = false → s.occupied (partName name) = false)) ∧
      (∀ j name, s.phases j = .writing name →
        name ∈ (jobs j).candidates ∧ s.occupied name = false) ∧
      ∀ j base cap resume, jobs j = .ofBase base cap resume →
        ∀ name, (s.phases j).holds = some name → some name ∈ renameCandidateNames base cap := by
  have hinv := Inv.reach h
  refine ⟨fun j k name hj hk => ?_, hinv.leased, fun j name checkpoint hp => ?_,
    fun j name hp => ?_, fun j base cap resume hjob name hname => ?_⟩
  · have hholder := (hinv.leased j name).mp hj
    rw [(hinv.leased k name).mp hk] at hholder
    cases hholder
    rfl
  · have hfree := hinv.free j
    have hnames := hinv.names j name
    rw [hp] at hfree hnames
    exact ⟨hnames List.mem_cons_self, hfree⟩
  · have hfree := hinv.free j
    have hnames := hinv.names j name
    rw [hp] at hfree hnames
    exact ⟨hnames List.mem_cons_self, hfree⟩
  · have hcandidate := hinv.names j name (SelectionPhase.mem_names_of_holds hname)
    rw [hjob] at hcandidate
    exact RenameJob.mem_ofBase.mp hcandidate

/-! ### Jobs that keep apart -/

/-- No candidate is the partial output of another. -/
def CandidatesClear (jobs : ℕ → RenameJob) : Prop :=
  ∀ j k, ∀ a ∈ (jobs j).candidates, ∀ b ∈ (jobs k).candidates, partName a ≠ b

/-- Every lease is held by a renaming job. -/
def OnlyJobs (s : RenameState) : Prop := ∀ name, s.leased name ≠ some .other

theorem OnlyJobs.setLease (h : s.OnlyJobs) {holder : Option LeaseHolder}
    (hholder : holder ≠ some .other) : (s.setLease name holder).OnlyJobs := by
  intro other hother
  have hupdate : Function.update s.leased name holder other = some .other := hother
  rw [Function.update_apply] at hupdate
  split_ifs at hupdate
  · exact hholder hupdate
  · exact h other hupdate

/-- The calls of the jobs bring no other leases. -/
theorem OnlyJobs.step {e : RenameEvent} (h : s.OnlyJobs) (he : e.ofJob = true)
    (hstep : step jobs s e = some s') : s'.OnlyJobs := by
  cases e with
  | select j answers =>
    obtain ⟨⟨p, change⟩, -, rfl⟩ := Option.map_eq_some_iff.mp hstep
    cases change with
    | none => exact h
    | take name => exact OnlyJobs.setLease h (by simp)
    | drop name => exact OnlyJobs.setLease h (by simp)
  | begin j =>
    rw [RenameState.step] at hstep
    split at hstep <;> cases hstep
    exact h
  | publish j removed =>
    rw [RenameState.step] at hstep
    split at hstep
    · split_ifs at hstep <;> cases hstep <;> exact OnlyJobs.setLease h (by simp)
    · cases hstep
  | giveUp j kept =>
    rw [RenameState.step] at hstep
    split at hstep <;> cases hstep <;> exact OnlyJobs.setLease h (by simp)
  | _ => cases he

/-- A job asks for a lease on one of its candidates, and so did the others. -/
theorem Inv.cooperative {e : RenameEvent} (h : s.Inv jobs) (hclear : CandidatesClear jobs)
    (honly : s.OnlyJobs) (he : e.ofJob = true) : s.Cooperative e := by
  cases e with
  | select j answers =>
    intro name hname other hother
    have hcandidate := h.names j name (SelectionPhase.mem_names_of_asks hname)
    obtain ⟨holder, hholder⟩ := Option.isSome_iff_exists.mp hother
    cases holder with
    | job k =>
      have hheld := h.names k other (SelectionPhase.mem_names_of_holds ((h.leased k other).mpr hholder))
      exact ⟨hclear k j other hheld name hcandidate, hclear j k name hcandidate other hheld⟩
    | other => exact absurd hholder (honly other)
  | begin j => trivial
  | publish j removed => trivial
  | giveUp j kept => trivial
  | _ => cases he

/-- Jobs that keep apart and act alone are cooperative in every run. -/
theorem runOk_of_jobs (hclear : CandidatesClear jobs) (hstart : s.Starts jobs)
    {es : List RenameEvent} (hes : ∀ e ∈ es, e.ofJob = true) :
    runOk (RenameState.step jobs) Cooperative s es := by
  have hevents : runOk (RenameState.step jobs) (fun _ e => e.ofJob = true) s es :=
    runOk_of_forall fun e he _ => hes e he
  have honly : s.OnlyJobs := fun name hname => by
    rw [hstart.leased] at hname
    cases hname
  refine runOk.imp (I := fun s => s.Inv jobs ∧ s.OnlyJobs) (fun t e ht he => ?_)
    (fun t e t' ht he hstep => ?_) ⟨.start hstart, honly⟩ hevents
  · exact ht.1.cooperative hclear ht.2 he
  · exact ⟨ht.1.step (ht.1.cooperative hclear ht.2 he) hstep, ht.2.step he hstep⟩

/-- Jobs that resume, and have the same three candidates. -/
def resumingJobs : ℕ → RenameJob :=
  fun _ => ⟨[ascii ['a'], ascii ['b'], ascii ['c']], .allowed⟩

theorem candidatesClear_resumingJobs : CandidatesClear resumingJobs := by
  intro j k
  show ∀ a ∈ [ascii ['a'], ascii ['b'], ascii ['c']],
    ∀ b ∈ [ascii ['a'], ascii ['b'], ascii ['c']], partName a ≠ b
  decide

/-- `a` is there, and partial output of `c`. -/
def someEntries (name : OsStr) : Bool :=
  name = ascii ['a'] || name = partName (ascii ['c'])

/-- The two jobs before their first call. -/
def usedDirectory : RenameState := ⟨fun j => (resumingJobs j).begin, someEntries, fun _ => none⟩

theorem starts_usedDirectory : usedDirectory.Starts resumingJobs := ⟨fun _ => rfl, fun _ => rfl⟩

/-- So many calls of a job, each with the lease granted where the name is free
and the checkpoint found or not. -/
def selects (j : ℕ) (checkpoint : Bool) (calls : ℕ) : List RenameEvent :=
  List.replicate calls (.select j ⟨none, .ok checkpoint⟩)

/-- Two jobs find the partial output of `c`, and the first one gets the lease;
the other one passes `a`, and leases `b`. -/
def meetingRun : List RenameEvent :=
  selects 0 true 3 ++ selects 1 false 3 ++ selects 0 true 1 ++ selects 1 false 9 ++
    selects 0 true 2

theorem ofJob_meetingRun : ∀ e ∈ meetingRun, e.ofJob = true := by
  intro e he
  simp only [meetingRun, selects, List.mem_append, List.mem_replicate] at he
  rcases he with (((⟨-, rfl⟩ | ⟨-, rfl⟩) | ⟨-, rfl⟩) | ⟨-, rfl⟩) | ⟨-, rfl⟩ <;> rfl

/-- Each job has a name of its own, and nothing stands there. -/
theorem rename_selection_safe_meeting : ∃ s,
    runEvents (RenameState.step resumingJobs) usedDirectory meetingRun = some s ∧
      s.phases 0 = .selected (ascii ['c']) true ∧ s.phases 1 = .selected (ascii ['b']) false ∧
      s.occupied (ascii ['c']) = false ∧ s.occupied (partName (ascii ['b'])) = false := by
  obtain ⟨s, hrun, h₀, h₁⟩ : ∃ s,
      runEvents (RenameState.step resumingJobs) usedDirectory meetingRun = some s ∧
        s.phases 0 = .selected (ascii ['c']) true ∧
        s.phases 1 = .selected (ascii ['b']) false := ⟨_, rfl, rfl, rfl⟩
  have hok := runOk_of_jobs candidatesClear_resumingJobs starts_usedDirectory ofJob_meetingRun
  have hselected := (rename_selection_safe (.of_run (.start starts_usedDirectory) hok hrun)).2.2.1
  exact ⟨s, hrun, h₀, h₁, (hselected 0 _ _ h₀).2.1, (hselected 1 _ _ h₁).2.2 rfl⟩

end RenameState

/-! ### The length of a selection -/

namespace RenameState

variable {jobs : ℕ → RenameJob} {s s' : RenameState} {j : ℕ}

theorem fuel_begin (job : RenameJob) : job.begin.fuel job ≤ 10 * job.candidates.length + 2 := by
  rw [RenameJob.begin]
  split_ifs <;> simp only [SelectionPhase.fuel] <;> omega

/-- A call is possible until the selection is over. -/
theorem selectStep_isSome (job : RenameJob) (occupied leased : OsStr → Bool) (a : RenameAnswers)
    {p : SelectionPhase} (h : p.ended = false) :
    (selectStep job occupied leased a p).isSome = true := by
  cases p with
  | scan rest => cases rest <;> rfl
  | fresh rest => cases rest <;> rfl
  | freshPart name rest => rfl
  | scanLease name rest => rw [selectStep]; split <;> rfl
  | freshLease name rest => rw [selectStep]; split <;> rfl
  | scanHeld name rest => rw [selectStep]; split_ifs <;> rfl
  | freshHeld name rest => rw [selectStep]; split_ifs <;> rfl
  | freshHeldPart name rest => rw [selectStep]; split_ifs <;> rfl
  | scanAdmit name rest => rw [selectStep]; split <;> rfl
  | freshAdmit name rest => rw [selectStep]; split <;> [rfl; (split_ifs <;> rfl); rfl]
  | _ => cases h

/-- **A call uses up the selection it belongs to, and no event prolongs one.** -/
theorem selectStep_fuel {e : RenameEvent} (h : step jobs s e = some s') (j : ℕ) :
    (s'.phases j).fuel (jobs j) + (if e.selects j then 1 else 0) ≤ (s.phases j).fuel (jobs j) := by
  have hset : ∀ (k : ℕ) (p : SelectionPhase), p.fuel (jobs k) = 0 →
      (Function.update s.phases k p j).fuel (jobs j) ≤ (s.phases j).fuel (jobs j) := by
    intro k p hp
    rw [Function.update_apply]
    split_ifs with hk
    · rw [hk, hp]
      exact Nat.zero_le _
    · exact le_refl _
  cases e with
  | select k answers =>
    obtain ⟨⟨p, change⟩, hselect, rfl⟩ := Option.map_eq_some_iff.mp h
    have hphases : ((s.setPhase k p).changeLease k change).phases =
        Function.update s.phases k p := by
      cases change <;> rfl
    have hfuel := (selectStep_spec hselect).fuel
    rw [hphases, Function.update_apply]
    by_cases hk : k = j
    · subst hk
      rw [if_pos rfl, if_pos (by simp [RenameEvent.selects])]
      exact hfuel
    · rw [if_neg (Ne.symm hk), if_neg (by simpa [RenameEvent.selects] using hk)]
      exact le_refl _
  | begin k =>
    rw [RenameState.step] at h
    split at h <;> cases h
    exact hset k _ rfl
  | publish k removed =>
    rw [RenameState.step] at h
    split at h
    · split_ifs at h <;> cases h <;> exact hset k _ rfl
    · cases h
  | giveUp k kept =>
    rw [RenameState.step] at h
    split at h <;> cases h <;> exact hset k _ rfl
  | otherAcquire name =>
    rw [RenameState.step] at h
    split_ifs at h
    cases h
    exact le_refl _
  | otherChange name part present =>
    rw [RenameState.step] at h
    split_ifs at h <;> cases h <;> exact le_refl _
  | otherRelease name =>
    rw [RenameState.step] at h
    split_ifs at h
    cases h
    exact le_refl _
  | outside name present =>
    cases h
    exact le_refl _

/-- **A selection ends**: whatever the others do, it is never blocked before its
end, which it reaches within ten calls for each candidate. -/
theorem rename_selection_ends {es : List RenameEvent} (hstart : s.Starts jobs)
    (hrun : runEvents (RenameState.step jobs) s es = some s') (j : ℕ) :
    es.countP (RenameEvent.selects j) ≤ 10 * (jobs j).candidates.length + 2 ∧
      ∀ answers, (s'.phases j).ended = false →
        (RenameState.step jobs s' (.select j answers)).isSome = true := by
  refine ⟨?_, fun answers hended => ?_⟩
  · have hfuel : es.countP (RenameEvent.selects j) + (s'.phases j).fuel (jobs j) ≤
        (s.phases j).fuel (jobs j) := by
      refine runEvents_invariant (I := fun es t => es.countP (RenameEvent.selects j) +
        (t.phases j).fuel (jobs j) ≤ (s.phases j).fuel (jobs j)) (by simp) ?_ hrun
      intro es t e t' _ ih hstep
      have hlast := selectStep_fuel hstep j
      rw [List.countP_append, List.countP_singleton]
      omega
    have hbegin := fuel_begin (jobs j)
    rw [hstart.phases] at hfuel
    omega
  · rw [RenameState.step, Option.isSome_map]
    exact selectStep_isSome _ _ _ _ hended

/-- The job that comes second has made most of its calls, and goes on. -/
theorem rename_selection_ends_meeting : ∃ s,
    runEvents (RenameState.step resumingJobs) usedDirectory (meetingRun.take 15) = some s ∧
      s.phases 1 = .freshAdmit (ascii ['b']) [ascii ['c']] ∧
      (meetingRun.take 15).countP (RenameEvent.selects 1) ≤ 32 ∧
      ∀ answers, (RenameState.step resumingJobs s (.select 1 answers)).isSome = true := by
  obtain ⟨s, hrun, h₁⟩ : ∃ s,
      runEvents (RenameState.step resumingJobs) usedDirectory (meetingRun.take 15) = some s ∧
        s.phases 1 = .freshAdmit (ascii ['b']) [ascii ['c']] := ⟨_, rfl, rfl⟩
  have hends := rename_selection_ends starts_usedDirectory hrun 1
  exact ⟨s, hrun, h₁, hends.1, fun answers => hends.2 answers (by rw [h₁]; rfl)⟩

end RenameState

end KDown
