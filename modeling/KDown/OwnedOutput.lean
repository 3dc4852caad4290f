/-
KDown/OwnedOutput.lean

How a partial output comes to be the engine's own (`FileSink::create_exclusive`
and `FileSink::open_owned` in io/sink.rs), while others change the directory.

A fresh output is created where the entry has been removed, and never opened.  An
output to resume is looked at, looked at again, opened, and looked at twice more:
the identity of the descriptor is compared with that of the entry before and
after.  An identity is a device and an inode number; the number of a file that is
gone is given out again.

* `owned_output_adopted`: whatever happens between the calls, the descriptor that
  is adopted is the file the entry names at that moment.
* `open_owned_undisturbed`: left alone, it is a regular file without other links.
* `open_owned_race`: that check is on the entry of the first look, and the
  comparison begins with the second.  A file put there in between is adopted with
  all its links.

Every call is one event here, and so is every change others make.
-/
import KDown.Runs
import Mathlib.Data.Finset.Card
import Mathlib.Data.Finset.Erase
import Mathlib.Data.Finset.Insert
import Mathlib.Data.Finset.Filter
import Mathlib.Logic.Function.Basic

namespace KDown

/-- The type of an entry, as far as the checks tell it apart. -/
inductive OutputFileKind
  | regular
  | directory
  | symlink
  | special
  deriving DecidableEq

/-- `dev` and `ino`. -/
structure FileIdentity where
  dev : ℕ
  ino : ℕ
  deriving DecidableEq

/-- Where the engine stands with its output. -/
inductive OwnPhase
  | idle
  /-- `create_exclusive`, behind the removal. -/
  | removed
  /-- `open_owned`, behind the check of the entry. -/
  | validated
  | statted (before : FileIdentity)
  | opened (before : FileIdentity) (file : ℕ)
  | measured (before opened : FileIdentity) (file : ℕ)
  | owned (file : ℕ)
  | failed
  deriving DecidableEq

/-- The names of a file system and the files behind them.  Files are numbered in
the order of their creation; names are numbers as well. -/
structure OutputDirectory where
  names : Finset ℕ
  entries : ℕ → Option ℕ
  kind : ℕ → OutputFileKind
  identity : ℕ → FileIdentity
  nextFile : ℕ
  phase : OwnPhase

/-- A call of the owner, or an interference between two of them. -/
inductive OwnEvent
  | removeTemp
  | createNew (identity : FileIdentity)
  | validate
  | before
  /-- A link is followed to the file it leads to. -/
  | open (target : ℕ)
  | measure
  | after
  /-- A call fails. -/
  | fail
  | otherCreate (name : ℕ) (kind : OutputFileKind) (identity : FileIdentity)
  | otherLink (name source : ℕ)
  | otherRename (name source : ℕ)
  | otherUnlink (name : ℕ)

/-- Does somebody else change the directory? -/
def OwnEvent.isOther : OwnEvent → Bool
  | .otherCreate _ _ _ => true
  | .otherLink _ _ => true
  | .otherRename _ _ => true
  | .otherUnlink _ => true
  | _ => false

namespace OutputDirectory

/-- Hard links of a file. -/
def linkCount (s : OutputDirectory) (file : ℕ) : ℕ :=
  (s.names.filter fun name => s.entries name = some file).card

/-- The entry of a name is replaced or removed. -/
def setEntry (s : OutputDirectory) (name : ℕ) (file : Option ℕ) : OutputDirectory :=
  { s with
    names := if file.isSome then insert name s.names else s.names.erase name
    entries := Function.update s.entries name file }

/-- A new file under a name. -/
def create (s : OutputDirectory) (name : ℕ) (kind : OutputFileKind) (identity : FileIdentity) :
    OutputDirectory :=
  { s.setEntry name (some s.nextFile) with
    kind := Function.update s.kind s.nextFile kind
    identity := Function.update s.identity s.nextFile identity
    nextFile := s.nextFile + 1 }

/-- The owner moves on. -/
def setPhase (s : OutputDirectory) (p : OwnPhase) : OutputDirectory := { s with phase := p }

/-- The engine's calls on the entry `temp`, and the changes of others. -/
def step (temp : ℕ) (s : OutputDirectory) : OwnEvent → Option OutputDirectory
  | .removeTemp =>
      match s.phase with
      | .idle =>
          -- unlinked, never followed
          if (s.entries temp).any fun file => s.kind file = .directory then
            some (s.setPhase .failed)
          else some ((s.setEntry temp none).setPhase .removed)
      | _ => none
  | .createNew identity =>
      match s.phase with
      | .removed =>
          if (s.entries temp).isSome then some (s.setPhase .failed)
          else some ((s.create temp .regular identity).setPhase (.owned s.nextFile))
      | _ => none
  | .validate =>
      match s.phase, s.entries temp with
      | .idle, some file =>
          some (s.setPhase
            (if s.kind file = .regular ∧ s.linkCount file ≤ 1 then .validated else .failed))
      | .idle, none => some (s.setPhase .failed)
      | _, _ => none
  | .before =>
      match s.phase, s.entries temp with
      | .validated, some file => some (s.setPhase (.statted (s.identity file)))
      | .validated, none => some (s.setPhase .failed)
      | _, _ => none
  | .open target =>
      match s.phase, s.entries temp with
      | .statted before, some file =>
          let found := if s.kind file = .symlink then target else file
          some (s.setPhase
            (if s.kind found = .directory then .failed else .opened before found))
      | .statted _, none => some (s.setPhase .failed)
      | _, _ => none
  | .measure =>
      match s.phase with
      | .opened before file => some (s.setPhase (.measured before (s.identity file) file))
      | _ => none
  | .after =>
      match s.phase, s.entries temp with
      | .measured before opened file, some entry =>
          some (s.setPhase
            (if before = opened ∧ opened = s.identity entry then .owned file else .failed))
      | .measured _ _ _, none => some (s.setPhase .failed)
      | _, _ => none
  | .fail =>
      match s.phase with
      | .owned _ => none
      | _ => some (s.setPhase .failed)
  | .otherCreate name kind identity =>
      if (s.entries name).isSome then none else some (s.create name kind identity)
  | .otherLink name source =>
      if (s.entries name).isSome ∨ (s.entries source).isNone then none
      else some (s.setEntry name (s.entries source))
  | .otherRename name source =>
      if name = source ∨ (s.entries source).isNone then none
      else some ((s.setEntry name (s.entries source)).setEntry source none)
  | .otherUnlink name => some (s.setEntry name none)

end OutputDirectory

/-- The file behind the engine's descriptor. -/
def OwnPhase.descriptor : OwnPhase → Option ℕ
  | .opened _ file => some file
  | .measured _ _ file => some file
  | .owned file => some file
  | _ => none

namespace OutputDirectory

/-- A file that has a name, or that the engine has open. -/
def Live (s : OutputDirectory) (file : ℕ) : Prop :=
  (∃ name, s.entries name = some file) ∨ s.phase.descriptor = some file

/-- The system gives a new file an identity that no live file has, and a link
leads to a file that has a name. -/
def FileSystem (s : OutputDirectory) : OwnEvent → Prop
  | .createNew identity => ∀ file, s.Live file → s.identity file ≠ identity
  | .otherCreate _ _ identity => ∀ file, s.Live file → s.identity file ≠ identity
  | .open target => (∃ name, s.entries name = some target) ∧ s.kind target ≠ .symlink
  | _ => True

/-- A directory before the engine's first call. -/
structure Starts (s : OutputDirectory) : Prop where
  phase : s.phase = .idle
  born : ∀ name file, s.entries name = some file → file < s.nextFile
  distinct : ∀ name name' file file', s.entries name = some file → s.entries name' = some file' →
    s.identity file = s.identity file' → file = file'
  names : ∀ name, name ∈ s.names ↔ (s.entries name).isSome = true

/-- Live files are told apart by their identities. -/
structure Inv (s : OutputDirectory) : Prop where
  born : ∀ file, s.Live file → file < s.nextFile
  distinct : ∀ file file', s.Live file → s.Live file' → s.identity file = s.identity file' →
    file = file'
  measured : ∀ before opened file, s.phase = .measured before opened file →
    opened = s.identity file
  openable : ∀ file, s.phase.descriptor = some file →
    s.kind file ≠ .symlink ∧ s.kind file ≠ .directory
  names : ∀ name, name ∈ s.names ↔ (s.entries name).isSome = true

variable {temp : ℕ} {s s' : OutputDirectory} {name : ℕ} {file : ℕ}

theorem Inv.start (h : s.Starts) : s.Inv := by
  have hnone : s.phase.descriptor = none := by rw [h.phase]; rfl
  have hlive : ∀ f, s.Live f → ∃ name, s.entries name = some f := by
    rintro f (hname | hopen)
    · exact hname
    · rw [hnone] at hopen
      cases hopen
  refine ⟨fun f hf => ?_, fun f f' hf hf' => ?_, ?_, ?_, h.names⟩
  · obtain ⟨n, hn⟩ := hlive f hf
    exact h.born n f hn
  · obtain ⟨n, hn⟩ := hlive f hf
    obtain ⟨n', hn'⟩ := hlive f' hf'
    exact h.distinct n n' f f' hn hn'
  · rw [h.phase]
    nofun
  · rw [hnone]
    nofun

theorem setEntry_names (h : ∀ n, n ∈ s.names ↔ (s.entries n).isSome = true) (name : ℕ)
    (file : Option ℕ) (n : ℕ) :
    n ∈ (s.setEntry name file).names ↔ ((s.setEntry name file).entries n).isSome = true := by
  show n ∈ (if file.isSome then insert name s.names else s.names.erase name) ↔
    (Function.update s.entries name file n).isSome = true
  rw [Function.update_apply]
  rcases file with - | f
  · rw [Option.isSome_none, if_neg (by decide), Finset.mem_erase, h]
    split_ifs with hn <;> simp [hn]
  · rw [Option.isSome_some, if_pos rfl, Finset.mem_insert, h]
    split_ifs with hn <;> simp [hn]

/-- The engine moves on; its descriptor is a live file. -/
theorem Inv.setPhase (h : s.Inv) {p : OwnPhase}
    (hdescriptor : ∀ f, p.descriptor = some f →
      s.Live f ∧ s.kind f ≠ .symlink ∧ s.kind f ≠ .directory)
    (hmeasured : ∀ before opened f, p = .measured before opened f → opened = s.identity f) :
    (s.setPhase p).Inv := by
  have hlive : ∀ f, (s.setPhase p).Live f → s.Live f := by
    rintro f (hname | hopen)
    · exact .inl hname
    · exact (hdescriptor f hopen).1
  exact ⟨fun f hf => h.born f (hlive f hf),
    fun f f' hf hf' => h.distinct f f' (hlive f hf) (hlive f' hf'), hmeasured,
    fun f hf => (hdescriptor f hf).2, h.names⟩

/-- A name is given to a live file, or to none. -/
theorem Inv.setEntry (h : s.Inv) {entry : Option ℕ} (hentry : ∀ f, entry = some f → s.Live f)
    (name : ℕ) : (s.setEntry name entry).Inv := by
  have hlive : ∀ f, (s.setEntry name entry).Live f → s.Live f := by
    rintro f (⟨n, hn⟩ | hopen)
    · have hupdate : Function.update s.entries name entry n = some f := hn
      rw [Function.update_apply] at hupdate
      split_ifs at hupdate
      · exact hentry f hupdate
      · exact .inl ⟨n, hupdate⟩
    · exact .inr hopen
  exact ⟨fun f hf => h.born f (hlive f hf),
    fun f f' hf hf' => h.distinct f f' (hlive f hf) (hlive f' hf'), h.measured, h.openable,
    setEntry_names h.names name entry⟩

theorem Inv.unlink (h : s.Inv) (name : ℕ) : (s.setEntry name none).Inv := by
  refine h.setEntry (fun f hf => ?_) name
  cases hf

/-- A new file has an identity of its own. -/
theorem Inv.create (h : s.Inv) {kind : OutputFileKind} {identity : FileIdentity}
    (hfresh : ∀ f, s.Live f → s.identity f ≠ identity) (name : ℕ) :
    (s.create name kind identity).Inv := by
  have hlive : ∀ f, (s.create name kind identity).Live f →
      f = s.nextFile ∨ s.Live f ∧ f ≠ s.nextFile := by
    intro f hf
    by_cases hnext : f = s.nextFile
    · exact .inl hnext
    · refine .inr ⟨?_, hnext⟩
      rcases hf with ⟨n, hn⟩ | hopen
      · have hupdate : Function.update s.entries name (some s.nextFile) n = some f := hn
        rw [Function.update_apply] at hupdate
        split_ifs at hupdate
        · exact absurd (Option.some.inj hupdate).symm hnext
        · exact .inl ⟨n, hupdate⟩
      · exact .inr hopen
  have hidentity : ∀ f, f ≠ s.nextFile →
      (s.create name kind identity).identity f = s.identity f :=
    fun f hf => Function.update_of_ne hf _ _
  have hself : (s.create name kind identity).identity s.nextFile = identity :=
    Function.update_self _ _ _
  have hopen : ∀ f, s.phase.descriptor = some f → f ≠ s.nextFile :=
    fun f hf => (h.born f (.inr hf)).ne
  refine ⟨fun f hf => ?_, fun f f' hf hf' heq => ?_, fun before opened f hp => ?_, fun f hf => ?_,
    setEntry_names h.names name _⟩
  · rcases hlive f hf with rfl | ⟨hold, -⟩
    · exact Nat.lt_succ_self _
    · exact Nat.lt_succ_of_lt (h.born f hold)
  · rcases hlive f hf with rfl | ⟨hold, hne⟩ <;> rcases hlive f' hf' with rfl | ⟨hold', hne'⟩
    · rfl
    · rw [hself, hidentity f' hne'] at heq
      exact absurd heq.symm (hfresh f' hold')
    · rw [hself, hidentity f hne] at heq
      exact absurd heq (hfresh f hold)
    · rw [hidentity f hne, hidentity f' hne'] at heq
      exact h.distinct f f' hold hold' heq
  · have hp' : s.phase = .measured before opened f := hp
    have hdescriptor : s.phase.descriptor = some f := by rw [hp']; rfl
    rw [hidentity f (hopen f hdescriptor)]
    exact h.measured before opened f hp'
  · have hkind : (s.create name kind identity).kind f = s.kind f :=
      Function.update_of_ne (hopen f hf) _ _
    rw [hkind]
    exact h.openable f hf

/-- What brings a file under the engine's name. -/
inductive Adopts (temp : ℕ) (s s' : OutputDirectory) (file : ℕ) : OwnEvent → Prop
  | created {identity} : s.phase = .removed → file = s.nextFile → s.entries temp = none →
      s' = (s.create temp .regular identity).setPhase (.owned s.nextFile) →
      Adopts temp s s' file (.createNew identity)
  | compared {before entry} : s.phase = .measured before (s.identity entry) file →
      s.entries temp = some entry → s' = s.setPhase (.owned file) →
      Adopts temp s s' file .after

/-- What a step is: an adoption, a call of the engine that owns nothing, or a
change by others. -/
theorem Inv.step {e : OwnEvent} (h : s.Inv) (hsystem : s.FileSystem e)
    (hs : step temp s e = some s') :
    s'.Inv ∧ (s'.phase = s.phase ∨ (∀ f, s'.phase ≠ .owned f) ∨ ∃ f, s'.phase = .owned f ∧
      Adopts temp s s' f e) := by
  have hfailed : (s.setPhase .failed).Inv := h.setPhase nofun nofun
  cases e with
  | removeTemp =>
    rw [OutputDirectory.step] at hs
    split at hs
    · split_ifs at hs
      · cases hs
        exact ⟨hfailed, .inr (.inl nofun)⟩
      · cases hs
        exact ⟨(h.unlink temp).setPhase nofun nofun, .inr (.inl nofun)⟩
    · cases hs
  | createNew identity =>
    rw [OutputDirectory.step] at hs
    split at hs
    · next hphase =>
      split_ifs at hs with hentry
      · cases hs
        exact ⟨hfailed, .inr (.inl nofun)⟩
      · cases hs
        refine ⟨(h.create hsystem temp).setPhase (fun f hf => ?_) nofun,
          .inr (.inr ⟨s.nextFile, rfl, .created hphase rfl
            (Option.not_isSome_iff_eq_none.mp hentry) rfl⟩)⟩
        cases hf
        refine ⟨.inl ⟨temp, Function.update_self _ _ _⟩, ?_⟩
        have hkind : (s.create temp .regular identity).kind s.nextFile = .regular :=
          Function.update_self _ _ _
        rw [hkind]
        exact ⟨nofun, nofun⟩
    · cases hs
  | validate =>
    rw [OutputDirectory.step] at hs
    split at hs
    · cases hs
      split_ifs
      · exact ⟨h.setPhase nofun nofun, .inr (.inl nofun)⟩
      · exact ⟨hfailed, .inr (.inl nofun)⟩
    · cases hs
      exact ⟨hfailed, .inr (.inl nofun)⟩
    · cases hs
  | before =>
    rw [OutputDirectory.step] at hs
    split at hs
    · cases hs
      exact ⟨h.setPhase nofun nofun, .inr (.inl nofun)⟩
    · cases hs
      exact ⟨hfailed, .inr (.inl nofun)⟩
    · cases hs
  | «open» target =>
    rw [OutputDirectory.step] at hs
    split at hs
    · next before file hphase hentry =>
      cases hs
      -- the entry itself, or what its link leads to
      have hfound : s.Live (if s.kind file = .symlink then target else file) ∧
          s.kind (if s.kind file = .symlink then target else file) ≠ .symlink := by
        split_ifs with hlink
        · exact ⟨.inl hsystem.1, hsystem.2⟩
        · exact ⟨.inl ⟨temp, hentry⟩, hlink⟩
      generalize (if s.kind file = .symlink then target else file) = found at hfound
      split_ifs with hdirectory
      · exact ⟨hfailed, .inr (.inl nofun)⟩
      · refine ⟨h.setPhase (fun f hf => ?_) nofun, .inr (.inl nofun)⟩
        cases hf
        exact ⟨hfound.1, hfound.2, hdirectory⟩
    · cases hs
      exact ⟨hfailed, .inr (.inl nofun)⟩
    · cases hs
  | measure =>
    rw [OutputDirectory.step] at hs
    split at hs
    · next before file hphase =>
      cases hs
      have hdescriptor : s.phase.descriptor = some file := by rw [hphase]; rfl
      refine ⟨h.setPhase (fun f hf => ?_) (fun b o f hf => ?_), .inr (.inl nofun)⟩
      · cases hf
        exact ⟨.inr hdescriptor, h.openable file hdescriptor⟩
      · cases hf
        rfl
    · cases hs
  | after =>
    rw [OutputDirectory.step] at hs
    split at hs
    · next before opened file entry hphase hentry =>
      cases hs
      have hdescriptor : s.phase.descriptor = some file := by rw [hphase]; rfl
      split_ifs with hsame
      · refine ⟨h.setPhase (fun f hf => ?_) nofun,
          .inr (.inr ⟨file, rfl, .compared (hsame.2 ▸ hphase) hentry rfl⟩)⟩
        cases hf
        exact ⟨.inr hdescriptor, h.openable file hdescriptor⟩
      · exact ⟨hfailed, .inr (.inl nofun)⟩
    · cases hs
      exact ⟨hfailed, .inr (.inl nofun)⟩
    · cases hs
  | fail =>
    rw [OutputDirectory.step] at hs
    split at hs
    · cases hs
    · cases hs
      exact ⟨hfailed, .inr (.inl nofun)⟩
  | otherCreate name kind identity =>
    rw [OutputDirectory.step] at hs
    split_ifs at hs
    cases hs
    exact ⟨h.create hsystem name, .inl rfl⟩
  | otherLink name source =>
    rw [OutputDirectory.step] at hs
    split_ifs at hs
    cases hs
    exact ⟨h.setEntry (fun f hf => .inl ⟨source, hf⟩) name, .inl rfl⟩
  | otherRename name source =>
    rw [OutputDirectory.step] at hs
    split_ifs at hs
    cases hs
    exact ⟨(h.setEntry (fun f hf => .inl ⟨source, hf⟩) name).unlink source, .inl rfl⟩
  | otherUnlink name =>
    cases hs
    exact ⟨h.unlink name, .inl rfl⟩

/-- The invariant holds in every run. -/
theorem Inv.reach (h : Reach (OutputDirectory.step temp) FileSystem Starts s) : s.Inv :=
  h.invariant (fun _ => .start) fun _ _ _ hinv hsystem hs => (hinv.step hsystem hs).1

/-- A new file has no other name. -/
theorem Inv.linkCount_create (h : s.Inv) {kind : OutputFileKind} {identity : FileIdentity}
    (name : ℕ) : (s.create name kind identity).linkCount s.nextFile = 1 := by
  rw [linkCount, Finset.card_eq_one]
  refine ⟨name, Finset.ext fun n => ?_⟩
  rw [Finset.mem_filter, Finset.mem_singleton]
  constructor
  · rintro ⟨-, hn⟩
    by_contra hne
    have hold : s.entries n = some s.nextFile := (Function.update_of_ne hne _ _).symm.trans hn
    exact (h.born s.nextFile (.inl ⟨n, hold⟩)).ne rfl
  · rintro rfl
    have hentry : (s.create n kind identity).entries n = some s.nextFile :=
      Function.update_self _ _ _
    refine ⟨(setEntry_names h.names n _ n).mpr ?_, hentry⟩
    exact Option.isSome_iff_exists.mpr ⟨_, hentry⟩

/-- **What is adopted is what the entry names**: however others change the
directory between the calls, the descriptor that becomes the engine's output is
the file under its name at that moment, and neither a link nor a directory; and a
fresh output is a new regular file that has no other name. -/
theorem owned_output_adopted {e : OwnEvent}
    (h : Reach (OutputDirectory.step temp) FileSystem Starts s) (hsystem : s.FileSystem e)
    (hs : step temp s e = some s') (hbefore : ∀ f, s.phase ≠ .owned f)
    (howned : s'.phase = .owned file) :
    s'.entries temp = some file ∧ s'.kind file ≠ .symlink ∧ s'.kind file ≠ .directory ∧
      (s.phase = .removed → ¬ s.Live file ∧ s'.kind file = .regular ∧ s'.linkCount file = 1) := by
  have hinv := Inv.reach h
  obtain ⟨hinv', hcases⟩ := hinv.step hsystem hs
  have hopenable := hinv'.openable file (by rw [howned]; rfl)
  rcases hcases with hsame | hnot | ⟨f, hf, hadopts⟩
  · exact absurd (hsame.symm.trans howned) (hbefore file)
  · exact absurd howned (hnot file)
  · rw [howned] at hf
    cases hf
    cases hadopts with
    | @created identity hphase hfile hentry hstate =>
      subst hstate hfile
      refine ⟨Function.update_self _ _ _, hopenable.1, hopenable.2,
        fun _ => ⟨fun hlive => ?_, ?_, ?_⟩⟩
      · exact (hinv.born _ hlive).ne rfl
      · exact Function.update_self _ _ _
      · have hcount : (s.create temp .regular identity).linkCount s.nextFile = 1 :=
          hinv.linkCount_create temp
        exact hcount
    | @compared before entry hphase hentry hstate =>
      subst hstate
      have hdescriptor : s.phase.descriptor = some file := by rw [hphase]; rfl
      -- the descriptor keeps its identity from being given out again
      have hfile : entry = file :=
        hinv.distinct entry file (.inl ⟨temp, hentry⟩) (.inr hdescriptor)
          (hinv.measured _ _ _ hphase)
      refine ⟨hfile ▸ hentry, hopenable.1, hopenable.2, fun hremoved => ?_⟩
      rw [hphase] at hremoved
      cases hremoved

/-! ### Without others -/

/-- The entry is a regular file that has no other name. -/
def Single (temp : ℕ) (s : OutputDirectory) (file : ℕ) : Prop :=
  s.entries temp = some file ∧ s.kind file = .regular ∧ s.linkCount file ≤ 1

/-- What the engine knows of its entry while nobody else changes it. -/
def Quiet (temp : ℕ) (s : OutputDirectory) : Prop :=
  match s.phase with
  | .validated => ∃ file, s.Single temp file
  | .statted _ => ∃ file, s.Single temp file
  | .opened _ file => s.Single temp file
  | .measured _ _ file => s.Single temp file
  | .owned file => s.Single temp file
  | _ => True

/-- **What the engine knows of its entry stays true** while nobody else acts. -/
theorem Quiet.step {e : OwnEvent} (hinv : s.Inv) (h : s.Quiet temp) (hown : e.isOther = false)
    (hs : step temp s e = some s') : s'.Quiet temp := by
  cases e with
  | removeTemp =>
    rw [OutputDirectory.step] at hs
    split at hs
    · split_ifs at hs <;> cases hs <;> trivial
    · cases hs
  | createNew identity =>
    rw [OutputDirectory.step] at hs
    split at hs
    · split_ifs at hs
      · cases hs
        trivial
      · cases hs
        have hcount : (s.create temp .regular identity).linkCount s.nextFile = 1 :=
          hinv.linkCount_create temp
        exact ⟨Function.update_self _ _ _, Function.update_self _ _ _, hcount.le⟩
    · cases hs
  | validate =>
    rw [OutputDirectory.step] at hs
    split at hs
    · next file _ hentry =>
      cases hs
      split_ifs with hsingle
      · exact ⟨file, hentry, hsingle.1, hsingle.2⟩
      · trivial
    · cases hs
      trivial
    · cases hs
  | before =>
    rw [OutputDirectory.step] at hs
    split at hs
    · next hphase _ =>
      rw [Quiet, hphase] at h
      cases hs
      exact h
    · cases hs
      trivial
    · cases hs
  | «open» target =>
    rw [OutputDirectory.step] at hs
    split at hs
    · next before file hphase hentry =>
      rw [Quiet, hphase] at h
      obtain ⟨f, hf, hregular, hlinks⟩ := h
      rw [hentry] at hf
      cases hf
      cases hs
      have hlink : s.kind file ≠ .symlink := by rw [hregular]; decide
      have hdirectory : s.kind file ≠ .directory := by rw [hregular]; decide
      rw [if_neg hlink, if_neg hdirectory]
      exact ⟨hentry, hregular, hlinks⟩
    · cases hs
      trivial
    · cases hs
  | measure =>
    rw [OutputDirectory.step] at hs
    split at hs
    · next before file hphase =>
      rw [Quiet, hphase] at h
      cases hs
      exact h
    · cases hs
  | after =>
    rw [OutputDirectory.step] at hs
    split at hs
    · next before opened file entry hphase hentry =>
      rw [Quiet, hphase] at h
      cases hs
      split_ifs
      · exact h
      · trivial
    · cases hs
      trivial
    · cases hs
  | fail =>
    rw [OutputDirectory.step] at hs
    split at hs
    · cases hs
    · cases hs
      trivial
  | _ => cases hown

/-- **Left alone, the engine owns a regular file without other links**: where
nobody else changes the directory from the first call on, the output that is
adopted is what was checked. -/
theorem open_owned_undisturbed
    (h : Reach (OutputDirectory.step temp) (fun s e => s.FileSystem e ∧ e.isOther = false) Starts s)
    (howned : s.phase = .owned file) :
    s.entries temp = some file ∧ s.kind file = .regular ∧ s.linkCount file ≤ 1 := by
  have hboth : s.Inv ∧ s.Quiet temp := by
    refine h.invariant (I := fun t => t.Inv ∧ t.Quiet temp) (fun t ht => ⟨.start ht, ?_⟩)
      fun t e t' hinv hok hs => ⟨(hinv.1.step hok.1 hs).1, hinv.2.step hinv.1 hok.2 hs⟩
    rw [Quiet, ht.phase]
    trivial
  have hquiet := hboth.2
  rw [Quiet, howned] at hquiet
  exact hquiet

/-! ### A file with two names -/

/-- The partial output is file 0, and file 1 has two names. -/
def twoLinks : OutputDirectory where
  names := {0, 1, 2}
  entries := fun name => if name = 0 then some 0 else if name ≤ 2 then some 1 else none
  kind := fun _ => .regular
  identity := fun file => ⟨0, file⟩
  nextFile := 2
  phase := .idle

theorem twoLinks_starts : twoLinks.Starts where
  phase := rfl
  born := fun name file h => by
    have hentry : (if name = 0 then some 0 else if name ≤ 2 then some 1 else none) = some file := h
    show file < 2
    split_ifs at hentry <;> cases hentry <;> omega
  distinct := fun _ _ _ _ _ _ heq => (FileIdentity.mk.injEq _ _ _ _ ▸ heq).2
  names := fun name => by
    show name ∈ ({0, 1, 2} : Finset ℕ) ↔
      (if name = 0 then some 0 else if name ≤ 2 then some 1 else (none : Option ℕ)).isSome = true
    simp only [Finset.mem_insert, Finset.mem_singleton]
    split_ifs <;> simp <;> omega

/-- The owner resumes, and nobody interferes. -/
def resumeCalls : List OwnEvent := [.validate, .before, .open 0, .measure, .after]

/-- Nobody interferes, and the output is owned with one link. -/
theorem open_owned_undisturbed_twoLinks : ∃ s,
    runEvents (OutputDirectory.step 0) twoLinks resumeCalls = some s ∧ s.phase = .owned 0 ∧
      s.linkCount 0 ≤ 1 := by
  obtain ⟨s, hs, howned⟩ : ∃ s, runEvents (OutputDirectory.step 0) twoLinks resumeCalls = some s ∧
      s.phase = .owned 0 := ⟨_, rfl, rfl⟩
  have hok : runOk (OutputDirectory.step 0) (fun t e => t.FileSystem e ∧ e.isOther = false) twoLinks
      resumeCalls := by
    refine ⟨⟨trivial, rfl⟩, fun t ht => ?_⟩
    cases ht
    refine ⟨⟨trivial, rfl⟩, fun t ht => ?_⟩
    cases ht
    exact ⟨⟨⟨⟨0, rfl⟩, nofun⟩, rfl⟩, fun _ _ => ⟨⟨trivial, rfl⟩, fun _ _ =>
      ⟨⟨trivial, rfl⟩, fun _ _ => trivial⟩⟩⟩
  exact ⟨s, hs, howned,
    (open_owned_undisturbed (.of_run (.start twoLinks_starts) hok hs) howned).2.2⟩

/-- The other file is moved under the name behind the check. -/
def raceCalls : List OwnEvent := [.validate, .otherRename 0 1, .before, .open 1, .measure]

/-- **A file that is moved under the name behind the first check is adopted**,
also with two links. -/
theorem open_owned_race : ∃ s s', runEvents (OutputDirectory.step 0) twoLinks raceCalls = some s ∧
    OutputDirectory.step 0 s .after = some s' ∧ s'.entries 0 = some 1 ∧ s'.linkCount 1 = 2 := by
  obtain ⟨s, hs, hphase, s', hs', howned, hlinks⟩ : ∃ s,
      runEvents (OutputDirectory.step 0) twoLinks raceCalls = some s ∧
        s.phase = .measured ⟨0, 1⟩ ⟨0, 1⟩ 1 ∧
        ∃ s', OutputDirectory.step 0 s .after = some s' ∧ s'.phase = .owned 1 ∧
          s'.linkCount 1 = 2 := ⟨_, rfl, rfl, _, rfl, rfl, rfl⟩
  have hok : runOk (OutputDirectory.step 0) FileSystem twoLinks raceCalls := by
    refine ⟨trivial, fun t ht => ?_⟩
    cases ht
    refine ⟨trivial, fun t ht => ?_⟩
    cases ht
    refine ⟨trivial, fun t ht => ?_⟩
    cases ht
    exact ⟨⟨⟨0, rfl⟩, nofun⟩, fun _ _ => ⟨trivial, fun _ _ => trivial⟩⟩
  have hsystem : s.FileSystem .after := trivial
  have hadopted := owned_output_adopted (.of_run (.start twoLinks_starts) hok hs) hsystem hs'
    (by rw [hphase]; nofun) howned
  exact ⟨s, s', hs, hs', hadopted.1, hlinks⟩

end OutputDirectory

end KDown
