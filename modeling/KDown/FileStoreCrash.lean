/-
KDown/FileStoreCrash.lean

Crashes and faults of the sidecar-file store (resume/checkpoint_store.rs).

A Durable save is followed call by call (`SaveRun.Holds`): what its temp entry
and its file hold before each of its calls.  `save_step` and `unlink_step` say
once what a call can do, `storeStep_effect` what a step means for the
sidecars: nothing, a rename, a sync of the directory, a removal, a delete that
finds nothing, or a crash.  The invariants are derived from that:

* `Calls`: every save stands where its phase says, under a temp name that no
  other running save has;
* `Retains`: every entry a sidecar has, or may have after a crash, was renamed
  into place, and what a save that returned Ok has put there is lost to a
  removal only.

A load looks at the metadata of the sidecar and then reads it; the results
below allow any step in between.
-/
import KDown.FileStore

namespace KDown

open CrashDisk (SameEntry)

/-! ### What a save has done so far -/

namespace SaveRun

/-- The call has not returned, and its process is there. -/
def live (r : SaveRun) : Bool :=
  match r.phase with
  | .returned _ | .killed => false
  | _ => true

/-- The whole text is in the file, for good. -/
def Stored (disk : CrashDisk StoreEntry ℕ ByteArray) (call : ℕ) (r : SaveRun) : Prop :=
  disk.files call = ⟨r.json.toUTF8, true⟩

/-- The temp entry is there, and leads to the file the save created. -/
def Owns (disk : CrashDisk StoreEntry ℕ ByteArray) (call : ℕ) (r : SaveRun) : Prop :=
  disk.entries (.temp r.temp) = some call

/-- Where a Durable save stands: what its temp entry and its file hold before
each of its calls. -/
def Holds (disk : CrashDisk StoreEntry ℕ ByteArray) (call : ℕ) (r : SaveRun) : Prop :=
  match r.phase with
  | .create => r.renamedAt = none
  | .write => r.renamedAt = none ∧ r.Owns disk call
  | .flush | .syncFile =>
      r.renamedAt = none ∧ r.Owns disk call ∧ (disk.files call).content = r.json.toUTF8
  | .rename => r.renamedAt = none ∧ r.Owns disk call ∧ r.Stored disk call
  | .openDir | .syncDir =>
      r.renamedAt.isSome = true ∧ disk.entries (.temp r.temp) = none ∧ r.Stored disk call
  | .cleanUp _ =>
      (r.Owns disk call ∨ disk.entries (.temp r.temp) = none) ∧
        (r.renamedAt.isSome = true → r.Stored disk call)
  | .returned (.ok _) => r.renamedAt.isSome = true ∧ r.Stored disk call
  | .returned (.error _) | .killed => r.renamedAt.isSome = true → r.Stored disk call

variable {disk disk' : CrashDisk StoreEntry ℕ ByteArray} {call : ℕ} {r : SaveRun}

/-- What was renamed into place is stored. -/
theorem Holds.stored (h : r.Holds disk call) (hr : r.renamedAt.isSome = true) :
    r.Stored disk call := by
  unfold Holds at h
  split at h
  -- before the rename
  · rw [h] at hr
    cases hr
  · rw [h.1] at hr
    cases hr
  · rw [h.1] at hr
    cases hr
  · rw [h.1] at hr
    cases hr
  · exact h.2.2
  -- after it, or after a failure
  · exact h.2.2
  · exact h.2.2
  · exact h.2 hr
  · exact h.2
  · exact h hr
  · exact h hr

/-- A save that has its temp entry leaves it to nobody else. -/
theorem Holds.owner (h : r.Holds disk call) (hlive : r.live = true)
    (hcreated : r.phase ≠ .create) :
    r.Owns disk call ∨ disk.entries (.temp r.temp) = none := by
  unfold Holds at h
  unfold live at hlive
  split at h <;> rename_i hp
  · exact absurd hp hcreated
  · exact .inl h.2
  · exact .inl h.2.1
  · exact .inl h.2.1
  · exact .inl h.2.1
  · exact .inr h.2.1
  · exact .inr h.2.1
  · exact h.1
  all_goals
    rw [hp] at hlive
    cases hlive

/-- Whatever happens elsewhere on the disk leaves the save where it is. -/
theorem Holds.frame (h : r.Holds disk call)
    (htemp : r.live = true → disk'.entries (.temp r.temp) = disk.entries (.temp r.temp))
    (hfile : disk'.files call = disk.files call) : r.Holds disk' call := by
  unfold Holds Owns Stored at h ⊢
  unfold live at htemp
  split at h <;> rename_i hp <;> simp only [hp] at htemp ⊢
  · exact h
  · rwa [htemp trivial]
  -- the entry and the file
  · rwa [htemp trivial, hfile]
  · rwa [htemp trivial, hfile]
  · rwa [htemp trivial, hfile]
  · rwa [htemp trivial, hfile]
  · rwa [htemp trivial, hfile]
  · rwa [htemp trivial, hfile]
  -- the file alone
  · rwa [hfile]
  · rwa [hfile]
  · rwa [hfile]

end SaveRun

namespace StoreState

variable {cfg : StoreConfig} {s s' : StoreState} {call : ℕ} {r : SaveRun}
  {fault : Option IoFault}

/-! ### The steps of a save -/

/-- The step concerns the temp entry and the file of the save only. -/
structure TempOnly (s s' : StoreState) (call : ℕ) (r r' : SaveRun) : Prop where
  entries : ∀ n, n ≠ .temp r.temp → SameEntry s.disk s'.disk n
  files : ∀ k, k ≠ call → s'.disk.files k = s.disk.files k
  renamedAt : r'.renamedAt = r.renamedAt
  notOk : r'.phase ≠ .returned (.ok ())
  syncedAt : s'.syncedAt = s.syncedAt
  /-- An entry at the temp path is changed by its owner only. -/
  owner : r.phase = .create → s.disk.entries (.temp r.temp) ≠ none →
    SameEntry s.disk s'.disk (.temp r.temp)

/-- What a step of a Durable save does to the disk. -/
inductive SaveEffect (s s' : StoreState) (call : ℕ) (r r' : SaveRun) : Prop
  | temp : TempOnly s s' call r r' → SaveEffect s s' call r r'
  | rename : r.phase = .rename → r'.phase = .openDir → r'.renamedAt = some s.clock →
      s'.disk = s.disk.rename (.temp r.temp) (.sidecar r.checkpoint.jobId) →
      s'.syncedAt = s.syncedAt → SaveEffect s s' call r r'
  | sync : r.phase = .syncDir → r'.phase = .returned (.ok ()) → r'.renamedAt = r.renamedAt →
      s'.disk = s.disk.syncDir → s'.syncedAt = s.clock → SaveEffect s s' call r r'

/-- A step of a save. -/
structure SaveMove (s s' : StoreState) (call : ℕ) (r r' : SaveRun) : Prop where
  live : r.live = true
  saves : s'.saves = Function.update s.saves call (some r')
  deletes : s'.deletes = s.deletes
  calls : s'.calls = s.calls
  pid : s'.pid = s.pid
  seq : s'.seq = s.seq
  clock : s'.clock = s.clock + 1
  checkpoint : r'.checkpoint = r.checkpoint
  json : r'.json = r.json
  tempName : r'.temp = r.temp
  holds : r.Holds s.disk call → r'.Holds s'.disk call
  effect : SaveEffect s s' call r r'

/-- A step that leaves the disk as it is. -/
theorem TempOnly.of_disk {r' : SaveRun} (hdisk : s'.disk = s.disk)
    (hsynced : s'.syncedAt = s.syncedAt) (hrenamed : r'.renamedAt = r.renamedAt)
    (hok : r'.phase ≠ .returned (.ok ())) : TempOnly s s' call r r' where
  entries := fun n _ => by rw [hdisk]; exact ⟨rfl, rfl⟩
  files := fun k _ => by rw [hdisk]
  renamedAt := hrenamed
  notOk := hok
  syncedAt := hsynced
  owner := fun _ _ => by rw [hdisk]; exact ⟨rfl, rfl⟩

/-- A step that changes the file of the save. -/
theorem TempOnly.of_file {r' : SaveRun} {f : DiskFile ByteArray}
    (hdisk : s'.disk = s.disk.setFile call f)
    (hsynced : s'.syncedAt = s.syncedAt) (hrenamed : r'.renamedAt = r.renamedAt)
    (hok : r'.phase ≠ .returned (.ok ())) : TempOnly s s' call r r' where
  entries := fun n _ => by rw [hdisk]; exact ⟨rfl, rfl⟩
  files := fun k hk => by rw [hdisk]; exact CrashDisk.files_setFile_of_ne _ hk
  renamedAt := hrenamed
  notOk := hok
  syncedAt := hsynced
  owner := fun _ _ => by rw [hdisk]; exact ⟨rfl, rfl⟩

theorem move_of_proceed {phase : SavePhase} {disk : CrashDisk StoreEntry ℕ ByteArray}
    (hlive : r.live = true)
    (hholds : r.Holds s.disk call → { r with phase := phase }.Holds disk call)
    (heffect : SaveEffect s (s.proceed call r phase disk).tick call r { r with phase := phase }) :
    ∃ r', SaveMove s (s.proceed call r phase disk).tick call r r' :=
  ⟨_, hlive, rfl, rfl, rfl, rfl, rfl, rfl, rfl, rfl, rfl, hholds, heffect⟩

theorem move_of_return {result : Except CheckpointError Unit}
    {disk : CrashDisk StoreEntry ℕ ByteArray} (hlive : r.live = true)
    (hholds : r.Holds s.disk call →
      { r with phase := .returned result, returnedAt := some s.clock }.Holds disk call)
    (heffect : SaveEffect s (s.returnSave call r result disk).tick call r
      { r with phase := .returned result, returnedAt := some s.clock }) :
    ∃ r', SaveMove s (s.returnSave call r result disk).tick call r r' :=
  ⟨_, hlive, rfl, rfl, rfl, rfl, rfl, rfl, rfl, rfl, rfl, hholds, heffect⟩

/-- A save that fails after the creation keeps the disk. -/
theorem move_of_fail {detail : String} (hlive : r.live = true) (hcreated : r.phase ≠ .create) :
    ∃ r', SaveMove s (s.failSave call r detail s.disk).tick call r r' :=
  move_of_proceed hlive (fun h => ⟨h.owner hlive hcreated, fun hr => h.stored hr⟩)
    (.temp (.of_disk rfl rfl rfl (by simp)))

/-- What the next call of a Durable save does, and how it takes the save from one
stand to the next. -/
theorem saveStep_move (hdur : cfg.durability = .durable)
    (h : s.saveStep cfg call r fault = some s') : ∃ r', SaveMove s s'.tick call r r' := by
  unfold saveStep at h
  simp only [hdur, if_true] at h
  split at h <;> rename_i hp
  · -- the exclusive creation
    split at h
    · cases h
    · rename_i hfree
      rw [← Option.some.inj h]
      refine move_of_proceed (by simp [SaveRun.live, hp]) (fun hr => ?_) (.temp
        ⟨fun n hn => CrashDisk.sameEntry_setEntry _ hn,
          fun k hk => CrashDisk.files_setFile_of_ne _ hk, rfl, by simp, rfl, fun _ hne => ?_⟩)
      · simp only [SaveRun.Holds, hp] at hr
        exact ⟨hr, CrashDisk.entries_setEntry _⟩
      · exact absurd (Option.isSome_iff_ne_none.mpr hne) hfree
  · rw [← Option.some.inj h]
    refine move_of_return (by simp [SaveRun.live, hp]) (fun hr => ?_)
      (.temp (.of_disk rfl rfl rfl (by simp)))
    exact fun hrenamed => hr.stored hrenamed
  · -- the whole text
    rw [← Option.some.inj h]
    refine move_of_proceed (by simp [SaveRun.live, hp]) (fun hr => ?_)
      (.temp (.of_file rfl rfl rfl (by simp)))
    simp only [SaveRun.Holds, hp] at hr
    exact ⟨hr.1, hr.2, congrArg DiskFile.content (CrashDisk.files_setFile_self _)⟩
  · -- a part of it
    rw [← Option.some.inj h]
    refine move_of_proceed (by simp [SaveRun.live, hp]) (fun hr => ?_)
      (.temp (.of_file rfl rfl rfl (by simp)))
    simp only [SaveRun.Holds, hp] at hr
    exact ⟨.inl hr.2, by simp [hr.1]⟩
  · rw [← Option.some.inj h]
    refine move_of_proceed (by simp [SaveRun.live, hp]) (fun hr => ?_)
      (.temp (.of_disk rfl rfl rfl (by simp)))
    simp only [SaveRun.Holds, hp] at hr
    exact hr
  · rw [← Option.some.inj h]
    exact move_of_fail (by simp [SaveRun.live, hp]) (by simp [hp])
  · -- the sync of the file
    rw [← Option.some.inj h]
    refine move_of_proceed (by simp [SaveRun.live, hp]) (fun hr => ?_)
      (.temp (.of_file rfl rfl rfl (by simp)))
    simp only [SaveRun.Holds, hp] at hr
    refine ⟨hr.1, hr.2.1, ?_⟩
    rw [SaveRun.Stored, CrashDisk.syncFile, CrashDisk.files_setFile_self, hr.2.2]
  · rw [← Option.some.inj h]
    exact move_of_fail (by simp [SaveRun.live, hp]) (by simp [hp])
  · -- the rename
    rw [← Option.some.inj h]
    refine ⟨_, by simp [SaveRun.live, hp], rfl, rfl, rfl, rfl, rfl, rfl, rfl, rfl, rfl,
      fun hr => ?_, .rename hp rfl rfl rfl rfl⟩
    simp only [SaveRun.Holds, hp] at hr
    exact ⟨rfl, CrashDisk.entries_rename_source, hr.2.2⟩
  · rw [← Option.some.inj h]
    exact move_of_fail (by simp [SaveRun.live, hp]) (by simp [hp])
  · rw [← Option.some.inj h]
    refine move_of_proceed (by simp [SaveRun.live, hp]) (fun hr => ?_)
      (.temp (.of_disk rfl rfl rfl (by simp)))
    simp only [SaveRun.Holds, hp] at hr
    exact hr
  · rw [← Option.some.inj h]
    exact move_of_fail (by simp [SaveRun.live, hp]) (by simp [hp])
  · -- the sync of the directory
    rw [← Option.some.inj h]
    refine ⟨_, by simp [SaveRun.live, hp], rfl, rfl, rfl, rfl, rfl, rfl, rfl, rfl, rfl,
      fun hr => ?_, .sync hp rfl rfl rfl rfl⟩
    simp only [SaveRun.Holds, hp] at hr
    exact ⟨hr.1, hr.2.2⟩
  · rw [← Option.some.inj h]
    exact move_of_fail (by simp [SaveRun.live, hp]) (by simp [hp])
  · -- the removal of the temp entry
    rw [← Option.some.inj h]
    refine move_of_return (by simp [SaveRun.live, hp]) (fun hr => ?_) (.temp
      ⟨fun n hn => CrashDisk.sameEntry_setEntry _ hn, fun k _ => rfl, rfl, by simp, rfl,
        by simp [hp]⟩)
    exact fun hrenamed => hr.stored hrenamed
  · rw [← Option.some.inj h]
    refine move_of_return (by simp [SaveRun.live, hp]) (fun hr => ?_)
      (.temp (.of_disk rfl rfl rfl (by simp)))
    exact fun hrenamed => hr.stored hrenamed
  · cases h
  · cases h

/-- **What a step of a Durable save can do.** -/
theorem save_step (hdur : cfg.durability = .durable)
    (hs : storeStep cfg s (.saveStep call fault) = some s') :
    ∃ r r', s.saves call = some r ∧ SaveMove s s' call r r' := by
  obtain ⟨r, hr, hrest⟩ := Option.bind_eq_some_iff.mp hs
  obtain ⟨t, ht, rfl⟩ := Option.map_eq_some_iff.mp hrest
  obtain ⟨r', hm⟩ := saveStep_move hdur ht
  exact ⟨r, r', hr, hm⟩

/-- A save begins: a new record, and nothing else. -/
structure SaveBegun (s s' : StoreState) (r' : SaveRun) : Prop where
  saves : s'.saves = Function.update s.saves s.calls (some r')
  deletes : s'.deletes = s.deletes
  disk : s'.disk = s.disk
  clock : s'.clock = s.clock + 1
  syncedAt : s'.syncedAt = s.syncedAt
  renamedAt : r'.renamedAt = none

theorem save_begun {cp : Checkpoint} (hs : storeStep cfg s (.save cp) = some s') :
    ∃ r', SaveBegun s s' r' := by
  simp only [storeStep, Option.some.injEq] at hs
  rcases hprep : cfg.prepare cp with e | json <;> simp only [hprep] at hs <;> rw [← hs]
  · exact ⟨_, rfl, rfl, rfl, rfl, rfl, rfl⟩
  · exact ⟨_, rfl, rfl, rfl, rfl, rfl, rfl⟩

/-! ### The step of a delete -/

/-- What the call of a delete does. -/
inductive DeleteEffect (s s' : StoreState) (d d' : DeleteRun) : Prop
  | failed : d'.doneAt = d.doneAt → d'.removed = d.removed → d'.phase ≠ .returned (.ok ()) →
      s'.disk = s.disk → DeleteEffect s s' d d'
  | removed : d'.doneAt = some s.clock → d'.removed = true →
      s'.disk = s.disk.unlink (.sidecar d.jobId) → DeleteEffect s s' d d'
  | missing : d'.doneAt = some s.clock → d'.removed = false →
      s.disk.entries (.sidecar d.jobId) = none → s'.disk = s.disk → DeleteEffect s s' d d'

/-- A delete has taken its step, and nothing else changed but the disk and the
clock. -/
structure DeleteMove (s s' : StoreState) (call : ℕ) (d d' : DeleteRun) : Prop where
  phase : d.phase = .unlink
  phase' : d'.phase ≠ .unlink
  deletes : s'.deletes = Function.update s.deletes call (some d')
  saves : s'.saves = s.saves
  calls : s'.calls = s.calls
  pid : s'.pid = s.pid
  seq : s'.seq = s.seq
  clock : s'.clock = s.clock + 1
  syncedAt : s'.syncedAt = s.syncedAt
  jobId : d'.jobId = d.jobId
  effect : DeleteEffect s s' d d'

/-- **What a step of a delete can do.** -/
theorem unlink_step (hs : storeStep cfg s (.unlink call fault) = some s') :
    ∃ d d', s.deletes call = some d ∧ DeleteMove s s' call d d' := by
  obtain ⟨d, hd, hrest⟩ := Option.bind_eq_some_iff.mp hs
  obtain ⟨t, h, rfl⟩ := Option.map_eq_some_iff.mp hrest
  refine ⟨d, ?_⟩
  unfold unlinkStep at h
  split at h
  · rename_i f hp
    rw [← Option.some.inj h]
    exact ⟨_, hd, hp, by simp, rfl, rfl, rfl, rfl, rfl, rfl, rfl, rfl,
      .failed rfl rfl (by simp) rfl⟩
  · rename_i hp
    rw [← Option.some.inj h]
    refine ⟨_, hd, hp, by simp, rfl, rfl, rfl, rfl, rfl, rfl, rfl, rfl, ?_⟩
    rcases hentry : s.disk.entries (.sidecar d.jobId) with - | k
    · exact .missing rfl (by simp) hentry (by simp [StoreState.tick])
    · exact .removed rfl (by simp) (by simp [StoreState.tick])
  · cases h

/-! ### The calls of a run -/

/-- Only checkpoints that pass their own validation are saved. -/
def validSaves (_ : StoreState) : StoreEvent → Prop
  | .save cp => cp.validate.isOk = true
  | _ => True

instance decidableValidSaves (s : StoreState) : ∀ e, Decidable (validSaves s e)
  | .save cp => inferInstanceAs (Decidable (cp.validate.isOk = true))
  | .saveStep _ _ | .delete _ | .unlink _ _ | .crash _ _ _ => .isTrue trivial

/-- The saves and deletes so far: each save stands where its phase says, and no
two running ones share a temp name. -/
structure Calls (cfg : StoreConfig) (s : StoreState) : Prop where
  fresh : ∀ k, s.calls ≤ k → s.saves k = none ∧ s.deletes k = none
  prepared : ∀ k r, s.saves k = some r → r.live = true ∨ r.renamedAt.isSome = true →
    cfg.prepare r.checkpoint = .ok r.json ∧ r.checkpoint.validate.isOk = true
  holds : ∀ k r, s.saves k = some r → r.Holds s.disk k
  named : ∀ k r, s.saves k = some r → r.live = true →
    r.temp.pid = s.pid ∧ r.temp.seq < s.seq
  distinct : ∀ j k r r', s.saves j = some r → s.saves k = some r' → r.live = true →
    r'.live = true → r.temp = r'.temp → j = k
  unlinking : ∀ k d, s.deletes k = some d → d.phase = .unlink → d.doneAt = none

theorem calls_init (cfg : StoreConfig) (pid : ℕ) : Calls cfg (storeInit pid) where
  fresh := fun _ _ => ⟨rfl, rfl⟩
  prepared := by intro k r h; cases h
  holds := by intro k r h; cases h
  named := by intro k r h; cases h
  distinct := by intro j k r r' h; cases h
  unlinking := by intro k d h; cases h

/-- One save is begun or goes on, and the others stand where they stood. -/
theorem Calls.update (h : Calls cfg s) {k : ℕ} {r' : SaveRun}
    (hsaves : s'.saves = Function.update s.saves k (some r')) (hdeletes : s'.deletes = s.deletes)
    (hcalls : s.calls ≤ s'.calls) (hk : k < s'.calls) (hpid : s'.pid = s.pid)
    (hseq : s.seq ≤ s'.seq)
    (hprepared : r'.live = true ∨ r'.renamedAt.isSome = true →
      cfg.prepare r'.checkpoint = .ok r'.json ∧ r'.checkpoint.validate.isOk = true)
    (hholds : r'.Holds s'.disk k)
    (hnamed : r'.live = true → r'.temp.pid = s'.pid ∧ r'.temp.seq < s'.seq)
    (hothers : ∀ j r, j ≠ k → s.saves j = some r → r.Holds s'.disk j ∧
      (r.live = true → r'.live = true → r.temp ≠ r'.temp)) : Calls cfg s' := by
  -- a record of the new state is the new one, or one of the old state
  have hcases : ∀ j r, s'.saves j = some r → j = k ∧ r = r' ∨ j ≠ k ∧ s.saves j = some r := by
    intro j r hr
    rw [hsaves] at hr
    rcases eq_or_ne j k with rfl | hne
    · rw [Function.update_self] at hr
      exact .inl ⟨rfl, (Option.some.inj hr).symm⟩
    · rw [Function.update_of_ne hne] at hr
      exact .inr ⟨hne, hr⟩
  refine ⟨fun j hj => ?_, fun j r hr => ?_, fun j r hr => ?_, fun j r hr hlive => ?_,
    fun j j' r₁ r₂ h₁ h₂ hl₁ hl₂ htemp => ?_, fun j d hd => ?_⟩
  · have hold := h.fresh j (hcalls.trans hj)
    rw [hsaves, hdeletes, Function.update_of_ne (by omega)]
    exact hold
  · rcases hcases j r hr with ⟨rfl, rfl⟩ | ⟨-, hold⟩
    · exact hprepared
    · exact h.prepared j r hold
  · rcases hcases j r hr with ⟨rfl, rfl⟩ | ⟨hne, hold⟩
    · exact hholds
    · exact (hothers j r hne hold).1
  · rcases hcases j r hr with ⟨rfl, rfl⟩ | ⟨-, hold⟩
    · exact hnamed hlive
    · obtain ⟨h₁, h₂⟩ := h.named j r hold hlive
      exact ⟨h₁.trans hpid.symm, by omega⟩
  · rcases hcases j r₁ h₁ with ⟨rfl, rfl⟩ | ⟨hne₁, hold₁⟩ <;>
      rcases hcases j' r₂ h₂ with ⟨rfl, rfl⟩ | ⟨hne₂, hold₂⟩
    · rfl
    · exact absurd htemp.symm ((hothers j' r₂ hne₂ hold₂).2 hl₂ hl₁)
    · exact absurd htemp ((hothers j r₁ hne₁ hold₁).2 hl₁ hl₂)
    · exact h.distinct j j' r₁ r₂ hold₁ hold₂ hl₁ hl₂ htemp
  · rw [hdeletes] at hd
    exact h.unlinking j d hd

/-- A save begins under a temp name of its own. -/
theorem Calls.save (h : Calls cfg s) {cp : Checkpoint} (hvalid : cp.validate.isOk = true)
    (hs : storeStep cfg s (.save cp) = some s') : Calls cfg s' := by
  simp only [storeStep, Option.some.injEq] at hs
  rcases hprep : cfg.prepare cp with e | json <;> simp only [hprep] at hs <;> subst hs
  · refine h.update rfl rfl (Nat.le_succ _) (Nat.lt_succ_self _) rfl le_rfl ?_ ?_ ?_ ?_
    · simp [SaveRun.live]
    · simp [SaveRun.Holds]
    · simp [SaveRun.live]
    · exact fun j r _ hr => ⟨h.holds j r hr, by simp [SaveRun.live]⟩
  · refine h.update rfl rfl (Nat.le_succ _) (Nat.lt_succ_self _) rfl (Nat.le_succ _) ?_ ?_ ?_ ?_
    · exact fun _ => ⟨hprep, hvalid⟩
    · simp [SaveRun.Holds]
    · exact fun _ => ⟨rfl, Nat.lt_succ_self _⟩
    · -- the sequence number is new
      refine fun j r _ hr => ⟨h.holds j r hr, fun hlive _ htemp => ?_⟩
      have hlt := (h.named j r hr hlive).2
      rw [htemp] at hlt
      exact absurd hlt (lt_irrefl _)

/-- One move of a save changes nothing of the others. -/
theorem Calls.move (h : Calls cfg s) {r' : SaveRun} (hr : s.saves call = some r)
    (hm : SaveMove s s' call r r') : Calls cfg s' := by
  have hcall : call < s.calls := by
    by_contra hge
    rw [(h.fresh call (Nat.le_of_not_lt hge)).1] at hr
    cases hr
  have hdistinct : ∀ j r₁, j ≠ call → s.saves j = some r₁ → r₁.live = true →
      r₁.temp ≠ r.temp :=
    fun j r₁ hne hj hl htemp => hne (h.distinct j call r₁ r hj hr hl hm.live htemp)
  refine h.update hm.saves hm.deletes hm.calls.ge (hm.calls ▸ hcall) hm.pid hm.seq.ge ?_
    (hm.holds (h.holds call r hr)) ?_ ?_
  · intro _
    rw [hm.checkpoint, hm.json]
    exact h.prepared call r hr (.inl hm.live)
  · intro _
    rw [hm.tempName, hm.pid, hm.seq]
    exact h.named call r hr hm.live
  · intro j r₁ hne hj
    refine ⟨(h.holds j r₁ hj).frame (fun hl => ?_) ?_, fun hl _ => ?_⟩
    · have htemp : StoreEntry.temp r₁.temp ≠ .temp r.temp := by
        simpa using hdistinct j r₁ hne hj hl
      cases hm.effect with
      | temp honly => exact (honly.entries _ htemp).1
      | rename _ _ _ hdisk _ =>
        rw [hdisk]
        exact (CrashDisk.sameEntry_rename htemp (by simp)).1
      | sync _ _ _ hdisk _ => rw [hdisk]; rfl
    · cases hm.effect with
      | temp honly => exact honly.files j hne
      | rename _ _ _ hdisk _ => rw [hdisk]; rfl
      | sync _ _ _ hdisk _ => rw [hdisk]; rfl
    · rw [hm.tempName]
      exact hdistinct j r₁ hne hj hl

/-- A delete touches sidecars only. -/
theorem Calls.unlink (h : Calls cfg s) {d d' : DeleteRun} (hd : s.deletes call = some d)
    (hm : DeleteMove s s' call d d') : Calls cfg s' := by
  have hcall : call < s.calls := by
    by_contra hge
    rw [(h.fresh call (Nat.le_of_not_lt hge)).2] at hd
    cases hd
  have hdisk : ∀ n, s'.disk.entries (.temp n) = s.disk.entries (.temp n) := by
    intro n
    cases hm.effect with
    | failed _ _ _ hdisk => rw [hdisk]
    | removed _ _ hdisk =>
      rw [hdisk]
      exact (CrashDisk.sameEntry_setEntry _ (by simp)).1
    | missing _ _ _ hdisk => rw [hdisk]
  have hfiles : s'.disk.files = s.disk.files := by
    cases hm.effect with
    | failed _ _ _ hdisk => rw [hdisk]
    | removed _ _ hdisk => rw [hdisk]; rfl
    | missing _ _ _ hdisk => rw [hdisk]
  refine ⟨fun k hk => ?_, ?_, fun k r hr => ?_, ?_, ?_, fun k e he hp => ?_⟩
  · rw [hm.calls] at hk
    rw [hm.saves, hm.deletes, Function.update_of_ne (by omega)]
    exact h.fresh k hk
  · rw [hm.saves]
    exact h.prepared
  · rw [hm.saves] at hr
    exact (h.holds k r hr).frame (fun _ => hdisk _) (congrFun hfiles k)
  · rw [hm.saves, hm.pid, hm.seq]
    exact h.named
  · rw [hm.saves]
    exact h.distinct
  · rw [hm.deletes] at he
    rcases eq_or_ne k call with rfl | hne
    · rw [Function.update_self] at he
      rw [← Option.some.inj he] at hp
      exact absurd hp hm.phase'
    · rw [Function.update_of_ne hne] at he
      exact h.unlinking k e he hp

theorem killSave_fields (r : SaveRun) :
    (killSave r).checkpoint = r.checkpoint ∧ (killSave r).json = r.json ∧
      (killSave r).renamedAt = r.renamedAt ∧ (killSave r).live = false ∧
      ((killSave r).phase = .returned (.ok ()) ↔ r.phase = .returned (.ok ())) := by
  unfold killSave
  split
  · rename_i hp
    exact ⟨rfl, rfl, rfl, by simp [SaveRun.live, hp], Iff.rfl⟩
  · rename_i hp
    exact ⟨rfl, rfl, rfl, rfl, by simpa using hp (.ok ())⟩

theorem killDelete_fields (d : DeleteRun) :
    (killDelete d).jobId = d.jobId ∧ (killDelete d).doneAt = d.doneAt ∧
      (killDelete d).removed = d.removed := by
  unfold killDelete
  split <;> exact ⟨rfl, rfl, rfl⟩

/-- A crash ends the running calls, and takes nothing that was renamed. -/
theorem Calls.crash (h : Calls cfg s) {pick : StoreEntry → ℕ} {torn : ℕ → ByteArray} {pid : ℕ}
    (hs : storeStep cfg s (.crash pick torn pid) = some s') : Calls cfg s' := by
  rw [← Option.some.inj hs]
  have hdead : ∀ r, (killSave r).live = false := fun r => (killSave_fields r).2.2.2.1
  refine ⟨fun k hk => ?_, fun k r hr hor => ?_, fun k r hr => ?_, fun k r hr hlive => ?_,
    fun j k r r' hr _ hlive => ?_, fun k d hd hp => ?_⟩
  · obtain ⟨h₁, h₂⟩ := h.fresh k hk
    exact ⟨congrArg (Option.map killSave) h₁, congrArg (Option.map killDelete) h₂⟩
  · obtain ⟨r₀, hr₀, rfl⟩ := Option.map_eq_some_iff.mp hr
    obtain ⟨h₁, h₂, h₃, -⟩ := killSave_fields r₀
    rw [h₁, h₂]
    rw [hdead, h₃] at hor
    exact h.prepared k r₀ hr₀ (hor.imp_left fun hf => absurd hf (by simp))
  · obtain ⟨r₀, hr₀, rfl⟩ := Option.map_eq_some_iff.mp hr
    have hold := h.holds k r₀ hr₀
    have hstored : r₀.renamedAt.isSome = true →
        (s.disk.crash pick torn).files k = ⟨r₀.json.toUTF8, true⟩ := by
      intro hrenamed
      have hst := hold.stored hrenamed
      rw [CrashDisk.files_crash (by rw [hst])]
      exact hst
    unfold killSave
    split
    · rename_i result hp
      unfold SaveRun.Holds at hold ⊢
      simp only [hp] at hold ⊢
      rcases result with e | ⟨⟩
      · exact hstored
      · exact ⟨hold.1, hstored hold.1⟩
    · exact hstored
  · obtain ⟨r₀, -, rfl⟩ := Option.map_eq_some_iff.mp hr
    rw [hdead] at hlive
    cases hlive
  · obtain ⟨r₀, -, rfl⟩ := Option.map_eq_some_iff.mp hr
    rw [hdead] at hlive
    cases hlive
  · obtain ⟨d₀, hd₀, rfl⟩ := Option.map_eq_some_iff.mp hd
    unfold killDelete at hp ⊢
    split at hp
    · rename_i hp'
      rw [hp'] at hp
      cases hp
    · cases hp

/-- Each save and delete goes on as its phase says. -/
theorem Calls.step (hdur : cfg.durability = .durable) (h : Calls cfg s) {e : StoreEvent}
    (hok : validSaves s e) (hs : storeStep cfg s e = some s') : Calls cfg s' := by
  cases e with
  | save cp => exact h.save hok hs
  | saveStep call fault =>
    obtain ⟨r, r', hr, hm⟩ := save_step hdur hs
    exact h.move hr hm
  | delete jobId =>
    rw [← Option.some.inj hs]
    refine ⟨fun k hk => ?_, h.prepared, h.holds, h.named, h.distinct, fun k d hd hp => ?_⟩
    · have hold := h.fresh k (Nat.le_of_succ_le hk)
      exact ⟨hold.1, (Function.update_of_ne (Nat.ne_of_gt hk) ..).trans hold.2⟩
    · simp only [StoreState.tick] at hd
      rcases eq_or_ne k s.calls with rfl | hne
      · rw [Function.update_self] at hd
        rw [← Option.some.inj hd]
      · rw [Function.update_of_ne hne] at hd
        exact h.unlinking k d hd hp
  | unlink call fault =>
    obtain ⟨d, d', hd, hm⟩ := unlink_step hs
    exact h.unlink hd hm
  | crash pick torn pid => exact h.crash hs

/-! ### The history of the sidecars -/

/-- Save `k` renamed its file over the sidecar at time `t`. -/
def Renamed (s : StoreState) (jobId : String) (k t : ℕ) : Prop :=
  ∃ r, s.saves k = some r ∧ r.checkpoint.jobId = jobId ∧ r.renamedAt = some t

/-- It did, and has not returned. -/
def Running (s : StoreState) (jobId : String) (k t : ℕ) : Prop :=
  ∃ r, s.saves k = some r ∧ r.checkpoint.jobId = jobId ∧ r.renamedAt = some t ∧ r.live = true

/-- It did, and has returned Ok. -/
def Confirmed (s : StoreState) (jobId : String) (k t : ℕ) : Prop :=
  ∃ r, s.saves k = some r ∧ r.checkpoint.jobId = jobId ∧ r.renamedAt = some t ∧
    r.phase = .returned (.ok ())

/-- Delete `j` removed the sidecar at time `t`, or found it gone. -/
def Done (s : StoreState) (jobId : String) (j t : ℕ) : Prop :=
  ∃ d, s.deletes j = some d ∧ d.jobId = jobId ∧ d.doneAt = some t

/-- Delete `j` removed the sidecar at time `t`. -/
def Removed (s : StoreState) (jobId : String) (j t : ℕ) : Prop :=
  ∃ d, s.deletes j = some d ∧ d.jobId = jobId ∧ d.doneAt = some t ∧ d.removed = true

/-- What happened stays recorded, and time passes. -/
structure Keeps (s s' : StoreState) : Prop where
  clock : s'.clock = s.clock + 1
  renamed : ∀ {id k t}, s.Renamed id k t → s'.Renamed id k t
  removed : ∀ {id j t}, s.Removed id j t → s'.Removed id j t

/-- Nothing but what happened before is recorded. -/
structure NothingNew (s s' : StoreState) : Prop where
  renamed : ∀ {id k t}, s'.Renamed id k t → s.Renamed id k t
  running : ∀ {id k t}, s'.Running id k t → s.Running id k t
  confirmed : ∀ {id k t}, s'.Confirmed id k t → s.Confirmed id k t
  done : ∀ {id j t}, s'.Done id j t → s.Done id j t

/-- What the step of an event means for the sidecars. -/
inductive Effect (s : StoreState) (e : StoreEvent) (s' : StoreState) : Prop
  | quiet : NothingNew s s' → (∀ id, SameEntry s.disk s'.disk (.sidecar id)) →
      s'.syncedAt = s.syncedAt → Effect s e s'
  | renamed (id : String) (k : ℕ) :
      (∀ {id' k' t}, s'.Renamed id' k' t →
        s.Renamed id' k' t ∨ id' = id ∧ k' = k ∧ t = s.clock) →
      (∀ {id' k' t}, s'.Running id' k' t →
        s.Running id' k' t ∨ id' = id ∧ k' = k ∧ t = s.clock) →
      (∀ {id' k' t}, s'.Confirmed id' k' t → s.Confirmed id' k' t) →
      (∀ {id' j t}, s'.Done id' j t → s.Done id' j t) →
      s'.Renamed id k s.clock → s'.disk.entries (.sidecar id) = some k →
      (∀ {v}, s'.disk.Possible (.sidecar id) v → v = some k ∨ s.disk.Possible (.sidecar id) v) →
      (∀ id', id' ≠ id → SameEntry s.disk s'.disk (.sidecar id')) →
      s'.syncedAt = s.syncedAt → Effect s e s'
  | synced :
      (∀ {id k t}, s'.Renamed id k t → s.Renamed id k t) →
      (∀ {id k t}, s'.Running id k t → s.Running id k t) →
      (∀ {id k t}, s'.Confirmed id k t → s.Confirmed id k t ∨ s.Running id k t) →
      (∀ {id j t}, s'.Done id j t → s.Done id j t) →
      s'.disk = s.disk.syncDir → s'.syncedAt = s.clock → Effect s e s'
  | removed (id : String) (j : ℕ) : s'.saves = s.saves →
      (∀ {id' j' t}, s'.Done id' j' t → s.Done id' j' t ∨ id' = id ∧ t = s.clock) →
      s'.Removed id j s.clock → s'.disk = s.disk.unlink (.sidecar id) →
      s'.syncedAt = s.syncedAt → Effect s e s'
  | missing (id : String) : s'.saves = s.saves →
      (∀ {id' j t}, s'.Done id' j t → s.Done id' j t ∨ id' = id ∧ t = s.clock) →
      s.disk.entries (.sidecar id) = none → s'.disk = s.disk →
      s'.syncedAt = s.syncedAt → Effect s e s'
  | crashed : (∃ pick torn pid, e = .crash pick torn pid) → NothingNew s s' →
      (∀ id k t, ¬ s'.Running id k t) →
      (∀ {id v}, s'.disk.Possible (.sidecar id) v →
        v = s'.disk.entries (.sidecar id) ∧ s.disk.Possible (.sidecar id) v) →
      s'.syncedAt = s.syncedAt → Effect s e s'

section Records

variable {α : Type} {f f' : ℕ → Option α} {a' : α}

/-- A record of the new state is the new one, or one of the old state. -/
theorem exists_of_update (hf : f' = Function.update f call (some a')) {P : α → Prop} {k : ℕ}
    (h : ∃ a, f' k = some a ∧ P a) : k = call ∧ P a' ∨ ∃ a, f k = some a ∧ P a := by
  obtain ⟨a, ha, hP⟩ := h
  rw [hf] at ha
  rcases eq_or_ne k call with rfl | hne
  · rw [Function.update_self] at ha
    rw [← Option.some.inj ha] at hP
    exact .inl ⟨rfl, hP⟩
  · rw [Function.update_of_ne hne] at ha
    exact .inr ⟨a, ha, hP⟩

/-- What is said of an old record still is, if the new one in its place agrees. -/
theorem exists_update (hf : f' = Function.update f call (some a')) {P : α → Prop} {k : ℕ}
    (h : ∃ a, f k = some a ∧ P a) (hnew : ∀ a, f call = some a → P a → P a') :
    ∃ a, f' k = some a ∧ P a := by
  obtain ⟨a, ha, hP⟩ := h
  rw [hf]
  rcases eq_or_ne k call with rfl | hne
  · exact ⟨a', Function.update_self .., hnew a ha hP⟩
  · exact ⟨a, (Function.update_of_ne hne ..).trans ha, hP⟩

end Records

theorem keeps_of_move {r' : SaveRun} (hr : s.saves call = some r) (hm : SaveMove s s' call r r')
    (hholds : r.Holds s.disk call) : Keeps s s' where
  clock := hm.clock
  renamed := fun h => exists_update hm.saves h fun a ha ⟨hid, hat⟩ => by
    obtain rfl : r = a := Option.some.inj (hr.symm.trans ha)
    refine ⟨by rw [hm.checkpoint]; exact hid, ?_⟩
    cases hm.effect with
    | temp honly => rw [honly.renamedAt, hat]
    | rename hp _ _ _ _ =>
      -- a save renames once
      simp only [SaveRun.Holds, hp] at hholds
      rw [hholds.1] at hat
      cases hat
    | sync _ _ hrenamed _ _ => rw [hrenamed, hat]
  removed := fun h => by
    unfold Removed
    rwa [hm.deletes]

/-- A step of a save, for the sidecars. -/
theorem effect_of_move {e : StoreEvent} {r' : SaveRun} (hr : s.saves call = some r)
    (hm : SaveMove s s' call r r') (hholds : r.Holds s.disk call) : Effect s e s' := by
  have hdone : ∀ {id j t}, s'.Done id j t → s.Done id j t := by
    intro id j t h
    unfold Done at h
    rwa [hm.deletes] at h
  cases hm.effect with
  | temp honly =>
    refine .quiet ⟨fun h => ?_, fun h => ?_, fun h => ?_, hdone⟩
      (fun id => honly.entries _ (by simp)) honly.syncedAt
    · rcases exists_of_update hm.saves h with ⟨rfl, hid, hat⟩ | hold
      · exact ⟨r, hr, hm.checkpoint ▸ hid, honly.renamedAt ▸ hat⟩
      · exact hold
    · rcases exists_of_update hm.saves h with ⟨rfl, hid, hat, -⟩ | hold
      · exact ⟨r, hr, hm.checkpoint ▸ hid, honly.renamedAt ▸ hat, hm.live⟩
      · exact hold
    · rcases exists_of_update hm.saves h with ⟨rfl, -, -, hp⟩ | hold
      · exact absurd hp honly.notOk
      · exact hold
  | rename hp hp' hat' hdisk hsynced =>
    simp only [SaveRun.Holds, hp] at hholds
    have hne : StoreEntry.sidecar r.checkpoint.jobId ≠ .temp r.temp := by simp
    refine .renamed r.checkpoint.jobId call (fun h => ?_) (fun h => ?_) (fun h => ?_) hdone
      ⟨r', (congrFun hm.saves call).trans (Function.update_self ..), by rw [hm.checkpoint], hat'⟩
      ?_ (fun h => ?_) (fun id hid => ?_) hsynced
    · rcases exists_of_update hm.saves h with ⟨rfl, hid, hat⟩ | hold
      · rw [hm.checkpoint] at hid
        rw [hat'] at hat
        exact .inr ⟨hid.symm, rfl, (Option.some.inj hat).symm⟩
      · exact .inl hold
    · rcases exists_of_update hm.saves h with ⟨rfl, hid, hat, -⟩ | hold
      · rw [hm.checkpoint] at hid
        rw [hat'] at hat
        exact .inr ⟨hid.symm, rfl, (Option.some.inj hat).symm⟩
      · exact .inl hold
    · rcases exists_of_update hm.saves h with ⟨rfl, -, -, hok⟩ | hold
      · rw [hp'] at hok
        cases hok
      · exact hold
    · -- the temp entry led to the file of this save
      have htarget := CrashDisk.entries_rename_target (d := s.disk) hne
      rw [hholds.2.1] at htarget
      rw [hdisk]
      exact htarget
    · rw [hdisk, CrashDisk.possible_rename_target hne, hholds.2.1] at h
      exact h
    · rw [hdisk]
      exact CrashDisk.sameEntry_rename (by simp) (by simpa using hid)
  | sync hp hp' hrenamed hdisk hsynced =>
    refine .synced (fun h => ?_) (fun h => ?_) (fun h => ?_) hdone hdisk hsynced
    · rcases exists_of_update hm.saves h with ⟨rfl, hid, hat⟩ | hold
      · exact ⟨r, hr, hm.checkpoint ▸ hid, hrenamed ▸ hat⟩
      · exact hold
    · rcases exists_of_update hm.saves h with ⟨rfl, -, -, hlive⟩ | hold
      · simp [SaveRun.live, hp'] at hlive
      · exact hold
    · rcases exists_of_update hm.saves h with ⟨rfl, hid, hat, -⟩ | hold
      · exact .inr ⟨r, hr, hm.checkpoint ▸ hid, hrenamed ▸ hat, hm.live⟩
      · exact .inl hold

/-- A delete's call, for the sidecars. -/
theorem effect_of_unlink {e : StoreEvent} {d d' : DeleteRun} (hd : s.deletes call = some d)
    (hm : DeleteMove s s' call d d') (hnone : d.doneAt = none) :
    Keeps s s' ∧ Effect s e s' := by
  have hsaves := hm.saves
  have hdone : ∀ {id j t}, s'.Done id j t →
      s.Done id j t ∨ id = d.jobId ∧ d'.doneAt = some t := by
    intro id j t h
    rcases exists_of_update hm.deletes h with ⟨-, hid, hat⟩ | hold
    · rw [hm.jobId] at hid
      exact .inr ⟨hid.symm, hat⟩
    · exact .inl hold
  refine ⟨⟨hm.clock, fun h => ?_, fun h => ?_⟩, ?_⟩
  · unfold Renamed
    rwa [hsaves]
  · refine exists_update hm.deletes h fun a ha ⟨_, hat, _⟩ => ?_
    obtain rfl : d = a := Option.some.inj (hd.symm.trans ha)
    rw [hnone] at hat
    cases hat
  cases hm.effect with
  | failed hsame _ _ hdisk =>
    refine .quiet ⟨fun h => ?_, fun h => ?_, fun h => ?_, fun h => ?_⟩ (fun id => ?_) hm.syncedAt
    · unfold Renamed at h
      rwa [hsaves] at h
    · unfold Running at h
      rwa [hsaves] at h
    · unfold Confirmed at h
      rwa [hsaves] at h
    · rcases hdone h with hold | ⟨-, hat⟩
      · exact hold
      · rw [hsame, hnone] at hat
        cases hat
    · rw [hdisk]
      exact ⟨rfl, rfl⟩
  | removed hat' hrem hdisk =>
    refine .removed d.jobId call hsaves (fun h => ?_) ?_ hdisk hm.syncedAt
    · refine (hdone h).imp_right fun ⟨hid, hat⟩ => ⟨hid, ?_⟩
      rw [hat'] at hat
      exact (Option.some.inj hat).symm
    · exact ⟨d', (congrFun hm.deletes call).trans (Function.update_self ..), hm.jobId, hat', hrem⟩
  | missing hat' _ hgone hdisk =>
    refine .missing d.jobId hsaves (fun h => ?_) hgone hdisk hm.syncedAt
    refine (hdone h).imp_right fun ⟨hid, hat⟩ => ⟨hid, ?_⟩
    rw [hat'] at hat
    exact (Option.some.inj hat).symm

/-- A crash, for the sidecars. -/
theorem effect_of_crash {pick : StoreEntry → ℕ} {torn : ℕ → ByteArray} {pid : ℕ}
    (hs : storeStep cfg s (.crash pick torn pid) = some s') :
    Keeps s s' ∧ Effect s (.crash pick torn pid) s' := by
  rw [← Option.some.inj hs]
  refine ⟨⟨rfl, ?_, ?_⟩, .crashed ⟨pick, torn, pid, rfl⟩ ⟨?_, ?_, ?_, ?_⟩ ?_
    (fun h => ⟨?_, h.of_crash⟩) rfl⟩
  · rintro id k t ⟨r, hr, hid, hat⟩
    obtain ⟨h₁, -, h₃, -⟩ := killSave_fields r
    exact ⟨_, congrArg (Option.map killSave) hr, h₁ ▸ hid, h₃ ▸ hat⟩
  · rintro id j t ⟨d, hd, hid, hat, hrem⟩
    obtain ⟨h₁, h₂, h₃⟩ := killDelete_fields d
    exact ⟨_, congrArg (Option.map killDelete) hd, h₁ ▸ hid, h₂ ▸ hat, h₃ ▸ hrem⟩
  · rintro id k t ⟨r, hr, hid, hat⟩
    obtain ⟨r₀, hr₀, rfl⟩ := Option.map_eq_some_iff.mp hr
    obtain ⟨h₁, -, h₃, -⟩ := killSave_fields r₀
    exact ⟨r₀, hr₀, h₁ ▸ hid, h₃ ▸ hat⟩
  · rintro id k t ⟨r, hr, -, -, hlive⟩
    obtain ⟨r₀, -, rfl⟩ := Option.map_eq_some_iff.mp hr
    rw [(killSave_fields r₀).2.2.2.1] at hlive
    cases hlive
  · rintro id k t ⟨r, hr, hid, hat, hp⟩
    obtain ⟨r₀, hr₀, rfl⟩ := Option.map_eq_some_iff.mp hr
    obtain ⟨h₁, -, h₃, -, h₅⟩ := killSave_fields r₀
    exact ⟨r₀, hr₀, h₁ ▸ hid, h₃ ▸ hat, h₅.mp hp⟩
  · rintro id j t ⟨d, hd, hid, hat⟩
    obtain ⟨d₀, hd₀, rfl⟩ := Option.map_eq_some_iff.mp hd
    obtain ⟨h₁, h₂, -⟩ := killDelete_fields d₀
    exact ⟨d₀, hd₀, h₁ ▸ hid, h₂ ▸ hat⟩
  · rintro id k t ⟨r, hr, -, -, hlive⟩
    obtain ⟨r₀, -, rfl⟩ := Option.map_eq_some_iff.mp hr
    rw [(killSave_fields r₀).2.2.2.1] at hlive
    cases hlive
  · exact List.mem_singleton.mp h

/-- A call begins, for the sidecars. -/
theorem effect_of_begin {e : StoreEvent} {k : ℕ} (hdisk : s'.disk = s.disk)
    (hclock : s'.clock = s.clock + 1) (hsynced : s'.syncedAt = s.syncedAt)
    (hsaves : s'.saves = s.saves ∨ s.saves k = none ∧
      ∃ r', s'.saves = Function.update s.saves k (some r') ∧ r'.renamedAt = none)
    (hdeletes : s'.deletes = s.deletes ∨ s.deletes k = none ∧
      ∃ d', s'.deletes = Function.update s.deletes k (some d') ∧ d'.doneAt = none) :
    Keeps s s' ∧ Effect s e s' := by
  -- a record that names a time is an old one
  have hsave : ∀ {j t} {r : SaveRun}, r.renamedAt = some t →
      (s'.saves j = some r ↔ s.saves j = some r) := by
    intro j t r hat
    rcases hsaves with heq | ⟨hnone, r', heq, hnew⟩
    · rw [heq]
    · rw [heq]
      rcases eq_or_ne j k with rfl | hne
      · rw [Function.update_self, hnone]
        refine ⟨fun h => ?_, fun h => by cases h⟩
        rw [← Option.some.inj h, hnew] at hat
        cases hat
      · rw [Function.update_of_ne hne]
  have hdelete : ∀ {j t} {d : DeleteRun}, d.doneAt = some t →
      (s'.deletes j = some d ↔ s.deletes j = some d) := by
    intro j t d hat
    rcases hdeletes with heq | ⟨hnone, d', heq, hnew⟩
    · rw [heq]
    · rw [heq]
      rcases eq_or_ne j k with rfl | hne
      · rw [Function.update_self, hnone]
        refine ⟨fun h => ?_, fun h => by cases h⟩
        rw [← Option.some.inj h, hnew] at hat
        cases hat
      · rw [Function.update_of_ne hne]
  refine ⟨⟨hclock, ?_, ?_⟩, .quiet ⟨?_, ?_, ?_, ?_⟩ (fun id => by rw [hdisk]; exact ⟨rfl, rfl⟩)
    hsynced⟩
  · rintro id j t ⟨r, hr, hid, hat⟩
    exact ⟨r, (hsave hat).mpr hr, hid, hat⟩
  · rintro id j t ⟨d, hd, hid, hat, hrem⟩
    exact ⟨d, (hdelete hat).mpr hd, hid, hat, hrem⟩
  · rintro id j t ⟨r, hr, hid, hat⟩
    exact ⟨r, (hsave hat).mp hr, hid, hat⟩
  · rintro id j t ⟨r, hr, hid, hat, hlive⟩
    exact ⟨r, (hsave hat).mp hr, hid, hat, hlive⟩
  · rintro id j t ⟨r, hr, hid, hat, hp⟩
    exact ⟨r, (hsave hat).mp hr, hid, hat, hp⟩
  · rintro id j t ⟨d, hd, hid, hat⟩
    exact ⟨d, (hdelete hat).mp hd, hid, hat⟩

/-- **What a step can mean for the sidecars.** -/
theorem storeStep_effect (hdur : cfg.durability = .durable) (h : Calls cfg s) {e : StoreEvent}
    (hs : storeStep cfg s e = some s') : Keeps s s' ∧ Effect s e s' := by
  cases e with
  | save cp =>
    obtain ⟨r', hb⟩ := save_begun hs
    exact effect_of_begin hb.disk hb.clock hb.syncedAt
      (.inr ⟨(h.fresh s.calls le_rfl).1, r', hb.saves, hb.renamedAt⟩) (.inl hb.deletes)
  | saveStep call fault =>
    obtain ⟨r, r', hr, hm⟩ := save_step hdur hs
    have hholds := h.holds call r hr
    exact ⟨keeps_of_move hr hm hholds, effect_of_move hr hm hholds⟩
  | delete jobId =>
    rw [← Option.some.inj hs]
    exact effect_of_begin rfl rfl rfl (.inl rfl)
      (.inr ⟨(h.fresh s.calls le_rfl).2, _, rfl, rfl⟩)
  | unlink call fault =>
    obtain ⟨d, d', hd, hm⟩ := unlink_step hs
    exact effect_of_unlink hd hm (h.unlinking call d hd hm.phase)
  | crash pick torn pid => exact effect_of_crash hs

/-! ### What saves leave behind -/

/-- The entry is a file that was renamed into place at `t` or later. -/
def Newer (s : StoreState) (jobId : String) (t : ℕ) (v : Option ℕ) : Prop :=
  ∃ k t', v = some k ∧ s.Renamed jobId k t' ∧ t ≤ t'

/-- A delete removed the sidecar after `t`. -/
def RemovedSince (s : StoreState) (jobId : String) (t : ℕ) : Prop :=
  ∃ j t', s.Removed jobId j t' ∧ t < t'

/-- What was renamed into place at `t` has not got lost: the entry is as new, or
it was removed. -/
def Kept (s : StoreState) (jobId : String) (t : ℕ) (v : Option ℕ) : Prop :=
  s.Newer jobId t v ∨ s.RemovedSince jobId t

theorem Kept.mono {id : String} {t : ℕ} {v : Option ℕ} (h : s.Kept id t v) (hk : Keeps s s') :
    s'.Kept id t v := by
  rcases h with ⟨k, t', hv, hren, hle⟩ | ⟨j, t', hrem, hlt⟩
  · exact .inl ⟨k, t', hv, hk.renamed hren, hle⟩
  · exact .inr ⟨j, t', hk.removed hrem, hlt⟩

theorem renamed_congr (h : s'.saves = s.saves) {id : String} {k t : ℕ} :
    s'.Renamed id k t ↔ s.Renamed id k t := by
  rw [Renamed, Renamed, h]

theorem running_congr (h : s'.saves = s.saves) {id : String} {k t : ℕ} :
    s'.Running id k t ↔ s.Running id k t := by
  rw [Running, Running, h]

theorem confirmed_congr (h : s'.saves = s.saves) {id : String} {k t : ℕ} :
    s'.Confirmed id k t ↔ s.Confirmed id k t := by
  rw [Confirmed, Confirmed, h]

theorem Running.renamed {id : String} {k t : ℕ} (h : s.Running id k t) : s.Renamed id k t := by
  obtain ⟨r, hr, hid, hat, -⟩ := h
  exact ⟨r, hr, hid, hat⟩

theorem Confirmed.renamed {id : String} {k t : ℕ} (h : s.Confirmed id k t) :
    s.Renamed id k t := by
  obtain ⟨r, hr, hid, hat, -⟩ := h
  exact ⟨r, hr, hid, hat⟩

/-- All that is recorded lies in the past. -/
structure Stamped (s : StoreState) : Prop where
  renamed : ∀ {id k t}, s.Renamed id k t → t < s.clock
  done : ∀ {id j t}, s.Done id j t → t < s.clock
  synced : s.syncedAt < s.clock

/-- **The clock runs on**, so that all that is recorded stays in the past. -/
theorem Stamped.step {e : StoreEvent} (h : Stamped s) (hk : Keeps s s')
    (he : Effect s e s') : Stamped s' := by
  have hold : ∀ {t}, t < s.clock → t < s'.clock := fun ht => by rw [hk.clock]; omega
  have hnow : s.clock < s'.clock := by rw [hk.clock]; omega
  cases he with
  | quiet hnew _ hsynced | crashed _ hnew _ _ hsynced =>
    exact ⟨fun hr => hold (h.renamed (hnew.renamed hr)), fun hd => hold (h.done (hnew.done hd)),
      hsynced ▸ hold h.synced⟩
  | renamed id k hren _ _ hdone _ _ _ _ hsynced =>
    refine ⟨fun hr => ?_, fun hd => hold (h.done (hdone hd)), hsynced ▸ hold h.synced⟩
    rcases hren hr with hr | ⟨-, -, rfl⟩
    · exact hold (h.renamed hr)
    · exact hnow
  | synced hren _ _ hdone _ hsynced =>
    exact ⟨fun hr => hold (h.renamed (hren hr)), fun hd => hold (h.done (hdone hd)),
      hsynced ▸ hnow⟩
  | removed id j hsaves hdone _ _ hsynced | missing id hsaves hdone _ _ hsynced =>
    refine ⟨fun hr => hold (h.renamed ((renamed_congr hsaves).mp hr)), fun hd => ?_,
      hsynced ▸ hold h.synced⟩
    rcases hdone hd with hd | ⟨-, rfl⟩
    · exact hold (h.done hd)
    · exact hnow

/-- Every sidecar was renamed into place, a running save's rename is in force,
and a confirmed one's is durable. -/
structure Retains (s : StoreState) : Prop where
  placed : ∀ {id k}, s.disk.Possible (.sidecar id) (some k) → ∃ t, s.Renamed id k t
  current : ∀ {id k t}, s.Running id k t → s.Kept id t (s.disk.entries (.sidecar id))
  durable : ∀ {id k t}, s.Confirmed id k t → ∀ {v}, s.disk.Possible (.sidecar id) v →
    s.Kept id t v

/-- After a rename everything that was kept is, and the new file is the newest. -/
theorem Retains.renamed (h : Retains s) (hs : Stamped s) (hk : Keeps s s') {id : String} {k : ℕ}
    (hrun : ∀ {id' k' t}, s'.Running id' k' t →
      s.Running id' k' t ∨ id' = id ∧ k' = k ∧ t = s.clock)
    (hconf : ∀ {id' k' t}, s'.Confirmed id' k' t → s.Confirmed id' k' t)
    (hnew : s'.Renamed id k s.clock) (hentry : s'.disk.entries (.sidecar id) = some k)
    (hposs : ∀ {v}, s'.disk.Possible (.sidecar id) v →
      v = some k ∨ s.disk.Possible (.sidecar id) v)
    (hsame : ∀ id', id' ≠ id → SameEntry s.disk s'.disk (.sidecar id')) : Retains s' := by
  have hnewest : ∀ {t}, t ≤ s.clock → s'.Kept id t (some k) :=
    fun ht => .inl ⟨k, s.clock, rfl, hnew, ht⟩
  refine ⟨fun {id' k'} hp => ?_, fun {id' k' t} hr => ?_, fun {id' k' t} hc v hp => ?_⟩
  · rcases eq_or_ne id' id with rfl | hne
    · rcases hposs hp with heq | hp
      · obtain rfl : k' = k := Option.some.inj heq
        exact ⟨_, hnew⟩
      · exact (h.placed hp).imp fun _ => hk.renamed
    · exact (h.placed ((hsame _ hne).possible_iff.mp hp)).imp fun _ => hk.renamed
  · rcases hrun hr with hr | ⟨rfl, rfl, rfl⟩
    · rcases eq_or_ne id' id with rfl | hne
      · rw [hentry]
        exact hnewest (hs.renamed hr.renamed).le
      · rw [(hsame _ hne).1]
        exact (h.current hr).mono hk
    · rw [hentry]
      exact hnewest le_rfl
  · have hc := hconf hc
    rcases eq_or_ne id' id with rfl | hne
    · rcases hposs hp with rfl | hp
      · exact hnewest (hs.renamed hc.renamed).le
      · exact (h.durable hc hp).mono hk
    · exact (h.durable hc ((hsame _ hne).possible_iff.mp hp)).mono hk

/-- What a removal leaves possible. -/
theorem possible_of_unlink {id id' : String} {v : Option ℕ}
    (h : (s.disk.unlink (.sidecar id)).Possible (.sidecar id') v) :
    id' = id ∧ v = none ∨ s.disk.Possible (.sidecar id') v := by
  rcases eq_or_ne id' id with rfl | hne
  · exact (CrashDisk.possible_setEntry.mp h).imp_left fun hv => ⟨rfl, hv⟩
  · exact .inr ((CrashDisk.sameEntry_setEntry none (by simpa using hne)).possible_iff.mp h)

/-- A removal takes a sidecar away that no running save has renamed. -/
theorem Retains.removed (h : Retains s) (hs : Stamped s) (hk : Keeps s s') {id : String} {j : ℕ}
    (hsaves : s'.saves = s.saves) (hrem : s'.Removed id j s.clock)
    (hdisk : s'.disk = s.disk.unlink (.sidecar id)) : Retains s' := by
  have hgone : ∀ {k t v}, s.Renamed id k t → s'.Kept id t v :=
    fun hr => .inr ⟨j, s.clock, hrem, hs.renamed hr⟩
  refine ⟨fun hp => ?_, fun {id' k t} hr => ?_, fun {id' k t} hc v hp => ?_⟩
  · rw [hdisk] at hp
    rcases possible_of_unlink hp with ⟨-, hv⟩ | hp
    · cases hv
    · exact (h.placed hp).imp fun _ => hk.renamed
  · rw [running_congr hsaves] at hr
    rcases eq_or_ne id' id with rfl | hne
    · exact hgone hr.renamed
    · rw [hdisk, CrashDisk.unlink, (CrashDisk.sameEntry_setEntry none (by simpa using hne)).1]
      exact (h.current hr).mono hk
  · rw [confirmed_congr hsaves] at hc
    rw [hdisk] at hp
    rcases possible_of_unlink hp with ⟨rfl, -⟩ | hp
    · exact hgone hc.renamed
    · exact (h.durable hc hp).mono hk

/-- **A sidecar leads to what was renamed there**, and a confirmed one does so
after a crash. -/
theorem Retains.step {e : StoreEvent} (h : Retains s) (hs : Stamped s) (hk : Keeps s s')
    (he : Effect s e s') : Retains s' := by
  cases he with
  | quiet hnew hsame _ =>
    refine ⟨fun hp => ?_, fun hr => ?_, fun hc v hp => ?_⟩
    · exact (h.placed ((hsame _).possible_iff.mp hp)).imp fun _ => hk.renamed
    · rw [(hsame _).1]
      exact (h.current (hnew.running hr)).mono hk
    · exact (h.durable (hnew.confirmed hc) ((hsame _).possible_iff.mp hp)).mono hk
  | renamed id k _ hrun hconf _ hnew hentry hposs hsame _ =>
    exact h.renamed hs hk hrun hconf hnew hentry hposs hsame
  | synced _ hrun hconf _ hdisk _ =>
    refine ⟨fun {id k} hp => ?_, fun {id k t} hr => ?_, fun {id k t} hc v hp => ?_⟩
    · rw [hdisk, CrashDisk.possible_syncDir] at hp
      have hp : s.disk.Possible (.sidecar id) (some k) := hp ▸ s.disk.possible_entries _
      exact (h.placed hp).imp fun _ => hk.renamed
    · rw [hdisk]
      exact (h.current (hrun hr)).mono hk
    · -- only the current entry is left
      rw [hdisk, CrashDisk.possible_syncDir] at hp
      subst hp
      rcases hconf hc with hc | hr
      · exact (h.durable hc (s.disk.possible_entries _)).mono hk
      · exact (h.current hr).mono hk
  | removed id j hsaves _ hrem hdisk _ => exact h.removed hs hk hsaves hrem hdisk
  | missing id hsaves _ _ hdisk _ =>
    refine ⟨fun hp => ?_, fun hr => ?_, fun hc v hp => ?_⟩
    · rw [hdisk] at hp
      exact (h.placed hp).imp fun _ => hk.renamed
    · rw [hdisk]
      exact (h.current ((running_congr hsaves).mp hr)).mono hk
    · rw [hdisk] at hp
      exact (h.durable ((confirmed_congr hsaves).mp hc) hp).mono hk
  | crashed _ hnew hdead hposs _ =>
    refine ⟨fun hp => ?_, fun hr => absurd hr (hdead _ _ _), fun hc v hp => ?_⟩
    · exact (h.placed (hposs hp).2).imp fun _ => hk.renamed
    · exact (h.durable (hnew.confirmed hc) (hposs hp).2).mono hk

/-! ### Loads -/

theorem fromUTF8?_toUTF8 (json : String) : String.fromUTF8? json.toUTF8 = some json := by
  have hvalid : json.toUTF8.IsValidUTF8 := by
    rw [String.toUTF8_eq_toByteArray]
    exact json.isValidUTF8
  exact (dif_pos hvalid).trans rfl

/-- What was prepared is within the budget. -/
theorem prepare_eq_ok {cp : Checkpoint} {json : String} (h : cfg.prepare cp = .ok json) :
    cfg.serde.toText cp = .ok json ∧
      ∀ cap, cfg.maxSerializedBytes = some cap → json.utf8ByteSize ≤ cap := by
  have htext : ∀ json, cfg.serde.toJson cp = .ok json → cfg.serde.toText cp = .ok json := by
    intro json h
    unfold Serde.toJson at h
    split at h
    · rename_i text htext
      rw [htext, Except.ok.inj h]
    · cases h
  unfold StoreConfig.prepare at h
  split at h
  · rename_i hcap
    exact ⟨htext json h, by simp [hcap]⟩
  · rename_i cap hcap
    split at h
    · cases h
    · split at h
      · cases h
      · rename_i json' hjson
        split_ifs at h with hsize
        rw [← Except.ok.inj h]
        refine ⟨htext json' hjson, fun cap' hcap' => ?_⟩
        obtain rfl : cap = cap' := Option.some.inj (hcap.symm.trans hcap')
        exact Nat.le_of_not_lt hsize

/-- A stored checkpoint is read back whole. -/
theorem decode_prepared {cp : Checkpoint} {json : String} (h : cfg.prepare cp = .ok json)
    (hvalid : cp.validate.isOk = true) :
    cfg.refuses (some json.toUTF8) = none ∧ cfg.decode (some json.toUTF8) = .ok (some cp) := by
  obtain ⟨htext, hcap⟩ := prepare_eq_ok h
  constructor
  · unfold StoreConfig.refuses
    rcases hmax : cfg.maxSerializedBytes with - | cap
    · rfl
    · simp only
      rw [if_neg]
      exact Nat.not_lt_of_le (hcap cap hmax)
  · have hok : cp.validate = .ok () := by
      rcases hv : cp.validate with e | ⟨⟩
      · rw [hv] at hvalid
        cases hvalid
      · rfl
    simp only [StoreConfig.decode, fromUTF8?_toUTF8, Serde.fromJson,
      cfg.serde.roundTrip cp json htext, hok]
    rfl

/-- What holds in every state of a run. -/
structure Sound (cfg : StoreConfig) (s : StoreState) : Prop where
  calls : Calls cfg s
  stamped : Stamped s
  retains : Retains s

theorem sound_init (cfg : StoreConfig) (pid : ℕ) : Sound cfg (storeInit pid) where
  calls := calls_init cfg pid
  stamped :=
    { renamed := by rintro id k t ⟨r, hr, -⟩; cases hr
      done := by rintro id k t ⟨d, hd, -⟩; cases hd
      synced := Nat.zero_lt_one }
  retains :=
    { placed := fun h => by
        have hnone := CrashDisk.possible_empty.mp h
        cases hnone
      current := by rintro id k t ⟨r, hr, -⟩; cases hr
      durable := by rintro id k t ⟨r, hr, -⟩; cases hr }

/-- **The three parts of the invariant are kept together.** -/
theorem Sound.step (hdur : cfg.durability = .durable) (h : Sound cfg s) {e : StoreEvent}
    (hok : validSaves s e) (hs : storeStep cfg s e = some s') : Sound cfg s' := by
  obtain ⟨hk, he⟩ := storeStep_effect hdur h.calls hs
  exact ⟨h.calls.step hdur hok hs, h.stamped.step hk he, h.retains.step h.stamped hk he⟩

/-- They hold in every run whose saves are valid. -/
theorem sound_of_reach (hdur : cfg.durability = .durable) {pid : ℕ}
    (h : Reach (storeStep cfg) validSaves (· = storeInit pid) s) : Sound cfg s :=
  h.invariant (by rintro _ rfl; exact sound_init cfg pid) fun _ _ _ hs hok hstep =>
    hs.step hdur hok hstep

/-- An entry that a sidecar has, or may have after a crash, leads to the whole
checkpoint of a save that was renamed into place. -/
theorem Sound.file (h : Sound cfg s) {id : String} {k : ℕ}
    (hp : s.disk.Possible (.sidecar id) (some k)) :
    ∃ r, s.saves k = some r ∧ r.checkpoint.jobId = id ∧ (s.disk.files k).synced = true ∧
      cfg.refuses (some (s.disk.files k).content) = none ∧
      cfg.decode (some (s.disk.files k).content) = .ok (some r.checkpoint) := by
  obtain ⟨t, r, hr, hid, hat⟩ := h.retains.placed hp
  have hrenamed : r.renamedAt.isSome = true := by rw [hat]; rfl
  have hstored := (h.calls.holds k r hr).stored hrenamed
  obtain ⟨hprep, hvalid⟩ := h.calls.prepared k r hr (.inr hrenamed)
  rw [SaveRun.Stored] at hstored
  rw [hstored]
  exact ⟨r, hr, hid, rfl, decode_prepared hprep hvalid⟩

/-- The metadata check never refuses. -/
theorem Sound.not_refused (h : Sound cfg s) (id : String) :
    cfg.refuses (s.disk.read (.sidecar id)) = none := by
  rcases hentry : s.disk.entries (.sidecar id) with - | k
  · simp [CrashDisk.read, hentry, StoreConfig.refuses]
  · obtain ⟨r, -, -, -, hsize, -⟩ := h.file (hentry ▸ s.disk.possible_entries _)
    simpa [CrashDisk.read, hentry] using hsize

/-- **What a load returns**: nothing, or the whole checkpoint of the save whose
file the sidecar leads to. -/
theorem Sound.load {s₀ : StoreState} (h₀ : Sound cfg s₀) (h : Sound cfg s) (id : String) :
    s.disk.entries (.sidecar id) = none ∧ cfg.load s₀.disk s.disk id = .ok none ∨
      ∃ k r, s.disk.entries (.sidecar id) = some k ∧ s.saves k = some r ∧
        r.checkpoint.jobId = id ∧ cfg.load s₀.disk s.disk id = .ok (some r.checkpoint) := by
  rcases hentry : s.disk.entries (.sidecar id) with - | k
  · refine .inl ⟨rfl, ?_⟩
    rw [StoreConfig.load, h₀.not_refused id, CrashDisk.read, hentry]
    rfl
  · obtain ⟨r, hr, hid, -, -, hdec⟩ := h.file (hentry ▸ s.disk.possible_entries _)
    refine .inr ⟨k, r, rfl, hr, hid, ?_⟩
    rw [StoreConfig.load, h₀.not_refused id, CrashDisk.read, hentry]
    exact hdec

/-! ### One save among others -/

/-- Records keep their checkpoint. -/
theorem checkpoint_kept (hdur : cfg.durability = .durable) (h : Calls cfg s) {e : StoreEvent}
    (hs : storeStep cfg s e = some s') {k : ℕ} (hr : s.saves k = some r) :
    ∃ r', s'.saves k = some r' ∧ r'.checkpoint = r.checkpoint := by
  cases e with
  | save cp =>
    have hne : k ≠ s.calls := by
      rintro rfl
      rw [(h.fresh s.calls le_rfl).1] at hr
      cases hr
    obtain ⟨r', hb⟩ := save_begun hs
    rw [hb.saves, Function.update_of_ne hne]
    exact ⟨r, hr, rfl⟩
  | saveStep call fault =>
    obtain ⟨r₀, r', hr₀, hm⟩ := save_step hdur hs
    refine exists_update hm.saves ⟨r, hr, rfl⟩ fun a ha hcp => ?_
    obtain rfl : r₀ = a := Option.some.inj (hr₀.symm.trans ha)
    exact hm.checkpoint.trans hcp
  | delete jobId =>
    rw [← Option.some.inj hs]
    exact ⟨r, hr, rfl⟩
  | unlink call fault =>
    obtain ⟨d, d', -, hm⟩ := unlink_step hs
    rw [hm.saves]
    exact ⟨r, hr, rfl⟩
  | crash pick torn pid =>
    rw [← Option.some.inj hs]
    exact ⟨_, congrArg (Option.map killSave) hr, (killSave_fields r).1⟩

/-- Of the calls for the identity, only save `k` takes a step, and the machine
does not crash. -/
def leavesAlone (k : ℕ) (jobId : String) (s : StoreState) : StoreEvent → Prop
  | .save _ | .delete _ => True
  | .saveStep j _ => j ≠ k → ∀ r, s.saves j = some r → r.checkpoint.jobId ≠ jobId
  | .unlink j _ => ∀ d, s.deletes j = some d → d.jobId ≠ jobId
  | .crash _ _ _ => False

/-- The sidecar is as it was, or leads to the file of save `k`; and so after a
crash. -/
structure SameOr (k : ℕ) (jobId : String) (s s' : StoreState) : Prop where
  entries : s'.disk.entries (.sidecar jobId) = s.disk.entries (.sidecar jobId) ∨
    s'.disk.entries (.sidecar jobId) = some k
  possible : ∀ {v}, s'.disk.Possible (.sidecar jobId) v →
    s.disk.Possible (.sidecar jobId) v ∨ v = some k
  checkpoints : ∀ {j r}, s.saves j = some r →
    ∃ r', s'.saves j = some r' ∧ r'.checkpoint = r.checkpoint

theorem SameOr.refl (k : ℕ) (jobId : String) (s : StoreState) : SameOr k jobId s s :=
  ⟨.inl rfl, .inl, fun hr => ⟨_, hr, rfl⟩⟩

theorem SameOr.trans {k : ℕ} {id : String} {s'' : StoreState} (h : SameOr k id s s')
    (h' : SameOr k id s' s'') : SameOr k id s s'' := by
  refine ⟨?_, fun hp => ?_, fun hr => ?_⟩
  · rcases h'.entries with heq | heq
    · rw [heq]
      exact h.entries
    · exact .inr heq
  · rcases h'.possible hp with hp | hv
    · exact h.possible hp
    · exact .inr hv
  · obtain ⟨r', hr', hcp⟩ := h.checkpoints hr
    obtain ⟨r'', hr'', hcp'⟩ := h'.checkpoints hr'
    exact ⟨r'', hr'', hcp'.trans hcp⟩

/-- **A step that leaves the save alone** does not change where the sidecar can
lead, but to it. -/
theorem sameOr_step (hdur : cfg.durability = .durable) (h : Calls cfg s) {e : StoreEvent}
    {k : ℕ} {id : String} (halone : leavesAlone k id s e) (hs : storeStep cfg s e = some s') :
    SameOr k id s s' := by
  have hof : SameEntry s.disk s'.disk (.sidecar id) → SameOr k id s s' := fun hsame =>
    ⟨.inl hsame.1, fun hp => .inl (hsame.possible_iff.mp hp), checkpoint_kept hdur h hs⟩
  cases e with
  | save cp =>
    obtain ⟨r', hb⟩ := save_begun hs
    exact hof (by rw [hb.disk]; exact ⟨rfl, rfl⟩)
  | delete jobId =>
    refine hof ?_
    rw [← Option.some.inj hs]
    exact ⟨rfl, rfl⟩
  | saveStep j fault =>
    have hkept := fun {i r} => checkpoint_kept (k := i) (r := r) hdur h hs
    obtain ⟨r, r', hr, hm⟩ := save_step hdur hs
    cases hm.effect with
    | temp honly => exact hof (honly.entries _ (by simp))
    | sync _ _ _ hdisk _ =>
      refine ⟨.inl (by rw [hdisk]; rfl), fun hp => .inl ?_, hkept⟩
      rw [hdisk, CrashDisk.possible_syncDir] at hp
      exact hp ▸ s.disk.possible_entries _
    | rename hp _ _ hdisk _ =>
      rcases eq_or_ne r.checkpoint.jobId id with rfl | hid
      · -- the only save that may be renamed here
        obtain rfl : j = k := by
          by_contra hne
          exact halone hne r hr rfl
        have hholds := h.holds j r hr
        simp only [SaveRun.Holds, hp] at hholds
        have hne : StoreEntry.sidecar r.checkpoint.jobId ≠ .temp r.temp := by simp
        refine ⟨.inr ?_, fun hposs => ?_, hkept⟩
        · rw [hdisk, CrashDisk.entries_rename_target hne]
          exact hholds.2.1
        · rw [hdisk, CrashDisk.possible_rename_target hne, hholds.2.1] at hposs
          exact hposs.symm
      · refine hof ?_
        rw [hdisk]
        exact CrashDisk.sameEntry_rename (by simp) (by simpa using hid.symm)
  | unlink j fault =>
    obtain ⟨d, d', hd, hm⟩ := unlink_step hs
    refine hof ?_
    cases hm.effect with
    | failed _ _ _ hdisk | missing _ _ _ hdisk =>
      rw [hdisk]
      exact ⟨rfl, rfl⟩
    | removed _ _ hdisk =>
      rw [hdisk]
      exact CrashDisk.sameEntry_setEntry none (by simpa using (halone d hd).symm)
  | crash pick torn pid => exact halone.elim

/-- The same for a run of such steps. -/
theorem sameOr_run (hdur : cfg.durability = .durable) {k : ℕ} {id : String}
    {es : List StoreEvent} (h : Sound cfg s)
    (hok : runOk (storeStep cfg) (fun s e => validSaves s e ∧ leavesAlone k id s e) s es)
    (hrun : runEvents (storeStep cfg) s es = some s') : Sound cfg s' ∧ SameOr k id s s' := by
  induction es generalizing s with
  | nil =>
    rw [← Option.some.inj hrun]
    exact ⟨h, .refl k id s⟩
  | cons e es ih =>
    obtain ⟨t, ht, hrest⟩ := Option.bind_eq_some_iff.mp hrun
    obtain ⟨⟨hvalid, halone⟩, hok'⟩ := hok
    obtain ⟨hsound, hsame⟩ := ih (h.step hdur hvalid ht) (hok' t ht) hrest
    exact ⟨hsound, (sameOr_step hdur h.calls halone ht).trans hsame⟩

theorem Sound.load_of_none {s₀ : StoreState} (h₀ : Sound cfg s₀) (h : Sound cfg s) {id : String}
    (hentry : s.disk.entries (.sidecar id) = none) : cfg.load s₀.disk s.disk id = .ok none := by
  rcases h₀.load h id with ⟨-, hload⟩ | ⟨k, r, hsome, -⟩
  · exact hload
  · rw [hentry] at hsome
    cases hsome

theorem Sound.load_of_some {s₀ : StoreState} (h₀ : Sound cfg s₀) (h : Sound cfg s) {id : String}
    {k : ℕ} (hentry : s.disk.entries (.sidecar id) = some k) (hr : s.saves k = some r) :
    cfg.load s₀.disk s.disk id = .ok (some r.checkpoint) := by
  rcases h₀.load h id with ⟨hnone, -⟩ | ⟨k', r', hsome, hr', -, hload⟩
  · rw [hentry] at hnone
    cases hnone
  · obtain rfl : k = k' := Option.some.inj (hentry.symm.trans hsome)
    obtain rfl : r = r' := Option.some.inj (hr.symm.trans hr')
    exact hload

/-- Two states with the same entry load the same. -/
theorem Sound.load_congr {s₀ : StoreState} (h₀ : Sound cfg s₀) (h : Sound cfg s)
    (h' : Sound cfg s') {id : String}
    (hentry : s'.disk.entries (.sidecar id) = s.disk.entries (.sidecar id))
    (hkept : ∀ {k r r'}, s.saves k = some r → s'.saves k = some r' →
      r'.checkpoint = r.checkpoint) :
    cfg.load s₀.disk s'.disk id = cfg.load s₀.disk s.disk id := by
  rcases hs : s.disk.entries (.sidecar id) with - | k
  · rw [h₀.load_of_none h hs, h₀.load_of_none h' (hentry.trans hs)]
  · obtain ⟨r, hr, -⟩ := h.file (hs ▸ s.disk.possible_entries _)
    obtain ⟨r', hr', -⟩ := h'.file (hentry.trans hs ▸ s'.disk.possible_entries _)
    rw [h₀.load_of_some h hs hr, h₀.load_of_some h' (hentry.trans hs) hr', hkept hr hr']

/-- A load after the steps of a save, and after a crash that follows them. -/
theorem SameOr.load (hdur : cfg.durability = .durable) {s₀ : StoreState} {k : ℕ} {id : String}
    (h₀ : Sound cfg s₀) (h : Sound cfg s) (h' : Sound cfg s') (hsame : SameOr k id s s')
    (hr : s.saves k = some r) :
    (cfg.load s₀.disk s'.disk id = cfg.load s₀.disk s.disk id ∨
      cfg.load s₀.disk s'.disk id = .ok (some r.checkpoint)) ∧
    ∀ pick torn pid s₃, storeStep cfg s' (.crash pick torn pid) = some s₃ →
      (∃ pick' s₂, storeStep cfg s (.crash pick' torn pid) = some s₂ ∧
        cfg.load s₀.disk s₃.disk id = cfg.load s₀.disk s₂.disk id) ∨
      cfg.load s₀.disk s₃.disk id = .ok (some r.checkpoint) := by
  constructor
  · rcases hsame.entries with hentry | hentry
    · refine .inl (h₀.load_congr h h' hentry fun hr hr' => ?_)
      obtain ⟨r'', hr'', hcp⟩ := hsame.checkpoints hr
      rw [Option.some.inj (hr'.symm.trans hr''), hcp]
    · obtain ⟨r', hr', hcp⟩ := hsame.checkpoints hr
      exact .inr (hcp ▸ h₀.load_of_some h' hentry hr')
  · intro pick torn pid s₃ hs₃
    have h₃ := h'.step (e := .crash pick torn pid) hdur trivial hs₃
    have hdisk : s₃.disk = s'.disk.crash pick torn := by
      rw [← Option.some.inj hs₃]
      rfl
    have hposs : s'.disk.Possible (.sidecar id) (s₃.disk.entries (.sidecar id)) := by
      rw [hdisk]
      exact (CrashDisk.possible_entries _ _).of_crash
    rcases hsame.possible hposs with hv | hv
    · -- the same entry could have come out of a crash before
      obtain ⟨pick', hpick⟩ := hv.exists_crash torn
      obtain ⟨s₂, hs₂⟩ : ∃ s₂, storeStep cfg s (.crash pick' torn pid) = some s₂ := ⟨_, rfl⟩
      have hentry₂ : s₂.disk.entries (.sidecar id) = s₃.disk.entries (.sidecar id) := by
        rw [← Option.some.inj hs₂]
        exact hpick
      refine .inl ⟨pick', s₂, hs₂, ?_⟩
      have h₂ := h.step (e := .crash pick' torn pid) hdur trivial hs₂
      refine h₀.load_congr h₂ h₃ hentry₂.symm fun {j r₂ r₃} hr₂ hr₃ => ?_
      rw [← Option.some.inj hs₂] at hr₂
      obtain ⟨rj, hrj, rfl⟩ := Option.map_eq_some_iff.mp hr₂
      obtain ⟨rj', hrj', hcp⟩ := hsame.checkpoints hrj
      obtain ⟨rj'', hrj'', hcp'⟩ := checkpoint_kept hdur h'.calls hs₃ hrj'
      rw [Option.some.inj (hr₃.symm.trans hrj''), hcp', hcp, (killSave_fields rj).1]
    · obtain ⟨r', hr', hcp⟩ := hsame.checkpoints hr
      obtain ⟨r'', hr'', hcp'⟩ := checkpoint_kept hdur h'.calls hs₃ hr'
      exact .inr ((hcp'.trans hcp) ▸ h₀.load_of_some h₃ hv hr'')

/-! ### Temp entries -/

/-- A temp entry, and the file it leads to, is touched by the save that created
it only. -/
theorem temp_entry_own (hdur : cfg.durability = .durable) (h : Calls cfg s) {e : StoreEvent}
    (hs : storeStep cfg s e = some s') (hcrash : ∀ pick torn pid, e ≠ .crash pick torn pid)
    {n : TempName} {k : ℕ} (hentry : s.disk.entries (.temp n) = some k)
    (htouched : s'.disk.entries (.temp n) ≠ some k ∨ s'.disk.files k ≠ s.disk.files k) :
    ∃ fault, e = .saveStep k fault := by
  cases e with
  | save cp =>
    obtain ⟨r', hb⟩ := save_begun hs
    rw [hb.disk] at htouched
    simp [hentry] at htouched
  | delete jobId =>
    rw [← Option.some.inj hs] at htouched
    exact htouched.elim (absurd hentry) (absurd rfl)
  | saveStep j fault =>
    obtain ⟨r, r', hr, hm⟩ := save_step hdur hs
    -- another save's file is not touched, and its entry has another name
    suffices hjk : j = k from ⟨fault, by rw [hjk]⟩
    have hholds := h.holds j r hr
    have howner : r.phase ≠ .create → n = r.temp → j = k := by
      rintro hcreated rfl
      rcases hholds.owner hm.live hcreated with how | hnone
      · exact Option.some.inj (how.symm.trans hentry)
      · rw [hentry] at hnone
        cases hnone
    cases hm.effect with
    | temp honly =>
      rcases htouched with hentry' | hfile
      · by_contra hjk
        rcases eq_or_ne n r.temp with rfl | hne
        · by_cases hcreate : r.phase = .create
          · exact hentry' ((honly.owner hcreate (by simp [hentry])).1.trans hentry)
          · exact hjk (howner hcreate rfl)
        · exact hentry' ((honly.entries _ (by simpa using hne)).1.trans hentry)
      · by_contra hjk
        exact hfile (honly.files k (Ne.symm hjk))
    | rename hp _ _ hdisk _ =>
      rcases htouched with hentry' | hfile
      · by_contra hjk
        rcases eq_or_ne n r.temp with rfl | hne
        · exact hjk (howner (by simp [hp]) rfl)
        · refine hentry' ?_
          rw [hdisk]
          exact (CrashDisk.sameEntry_rename (by simpa using hne) (by simp)).1.trans hentry
      · exact absurd (by rw [hdisk]; rfl) hfile
    | sync _ _ _ hdisk _ =>
      rw [hdisk] at htouched
      exact htouched.elim (absurd hentry) (absurd rfl)
  | unlink j fault =>
    obtain ⟨d, d', hd, hm⟩ := unlink_step hs
    cases hm.effect with
    | failed _ _ _ hdisk | missing _ _ _ hdisk =>
      rw [hdisk] at htouched
      simp [hentry] at htouched
    | removed _ _ hdisk =>
      rw [hdisk] at htouched
      refine htouched.elim (fun hentry' => absurd ?_ hentry') (absurd rfl)
      exact (CrashDisk.sameEntry_setEntry none (by simp)).1.trans hentry
  | crash pick torn pid => exact absurd rfl (hcrash pick torn pid)

/-! ### Atomicity -/

/-- **Crash and fault atomicity of the Durable store.**  In every state of a
run of any number of saves and deletes, with faults and crashes anywhere: a
load returns nothing or the whole checkpoint of a save of that identity; once
a save has returned Ok and no delete has removed the sidecar since its rename,
a load returns its checkpoint or one renamed into place later; the steps of a
save alone leave a load, now or after a crash, with what it would have
returned before or with the save's whole checkpoint; a temp entry is touched
by the save that created it only; and no two entries share a path. -/
theorem saves_crash_atomic (cfg : StoreConfig) (hdur : cfg.durability = .durable) (pid : ℕ)
    (s₀ s : StoreState) (h₀ : Reach (storeStep cfg) validSaves (· = storeInit pid) s₀)
    (h : Reach (storeStep cfg) validSaves (· = storeInit pid) s) :
    (∀ id, cfg.load s₀.disk s.disk id = .ok none ∨
      ∃ k r, s.saves k = some r ∧ r.checkpoint.jobId = id ∧
        cfg.load s₀.disk s.disk id = .ok (some r.checkpoint)) ∧
    (∀ k r, s.saves k = some r → r.phase = .returned (.ok ()) →
      ∃ t, r.renamedAt = some t ∧
        ((∀ j t', s.Removed r.checkpoint.jobId j t' → t' ≤ t) →
          ∃ k' r' t', s.saves k' = some r' ∧ r'.checkpoint.jobId = r.checkpoint.jobId ∧
            r'.renamedAt = some t' ∧ t ≤ t' ∧
            cfg.load s₀.disk s.disk r.checkpoint.jobId = .ok (some r'.checkpoint))) ∧
    (∀ k r es s', s.saves k = some r →
      runOk (storeStep cfg)
        (fun s e => validSaves s e ∧ leavesAlone k r.checkpoint.jobId s e) s es →
      runEvents (storeStep cfg) s es = some s' →
      (cfg.load s₀.disk s'.disk r.checkpoint.jobId =
          cfg.load s₀.disk s.disk r.checkpoint.jobId ∨
        cfg.load s₀.disk s'.disk r.checkpoint.jobId = .ok (some r.checkpoint)) ∧
      ∀ pick torn pid' s₃, storeStep cfg s' (.crash pick torn pid') = some s₃ →
        (∃ pick' s₂, storeStep cfg s (.crash pick' torn pid') = some s₂ ∧
          cfg.load s₀.disk s₃.disk r.checkpoint.jobId =
            cfg.load s₀.disk s₂.disk r.checkpoint.jobId) ∨
        cfg.load s₀.disk s₃.disk r.checkpoint.jobId = .ok (some r.checkpoint)) ∧
    (∀ e s' n k, storeStep cfg s e = some s' → (∀ pick torn pid', e ≠ .crash pick torn pid') →
      s.disk.entries (.temp n) = some k →
      s'.disk.entries (.temp n) ≠ some k ∨ s'.disk.files k ≠ s.disk.files k →
      ∃ fault, e = .saveStep k fault) ∧
    Function.Injective cfg.path := by
  have hsound₀ := sound_of_reach hdur h₀
  have hsound := sound_of_reach hdur h
  refine ⟨fun id => ?_, fun k r hr hp => ?_, fun k r es s' hr hok hrun => ?_,
    fun e s' n k hs hcrash hentry htouched =>
      temp_entry_own hdur hsound.calls hs hcrash hentry htouched,
    cfg.path_injective⟩
  · rcases hsound₀.load hsound id with ⟨-, hload⟩ | ⟨k, r, -, hr, hid, hload⟩
    · exact .inl hload
    · exact .inr ⟨k, r, hr, hid, hload⟩
  · have hholds := hsound.calls.holds k r hr
    simp only [SaveRun.Holds, hp] at hholds
    obtain ⟨t, ht⟩ := Option.isSome_iff_exists.mp hholds.1
    refine ⟨t, ht, fun hkept => ?_⟩
    have hconf : s.Confirmed r.checkpoint.jobId k t := ⟨r, hr, rfl, ht, hp⟩
    rcases hsound.retains.durable hconf (s.disk.possible_entries _) with
      ⟨k', t', hentry, ⟨r', hr', hid, hat⟩, hle⟩ | ⟨j, t', hrem, hlt⟩
    · exact ⟨k', r', t', hr', hid, hat, hle, hsound₀.load_of_some hsound hentry hr'⟩
    · exact absurd (hkept j t' hrem) (Nat.not_le_of_lt hlt)
  · obtain ⟨hsound', hsame⟩ := sameOr_run hdur hsound hok hrun
    exact hsame.load hdur hsound₀ hsound hsound' hr

/-- Four bytes of eight. -/
def halfDone : Checkpoint where
  formatVersion := 2
  jobId := "job"
  tempPathIdentity := "tmp-job"
  ownedTempIdentity := none
  coveredDigest := none
  totalSize := some 8
  validators := ⟨some "v1", false, none, some 8⟩
  completedRanges := [(0, 3)]
  expectedHashes := []
  createdAt := "0"
  updatedAt := "0"

/-- The text of the checkpoint. -/
def halfDoneText : String :=
  "\x7b\"format_version\":2,\"job_id\":\"job\",\"temp_path_identity\":\"tmp-job\"," ++
  "\"owned_temp_identity\":null,\"covered_digest\":null,\"total_size\":8," ++
  "\"validators\":\x7b\"etag\":\"v1\",\"etag_is_weak\":false,\"last_modified\":null," ++
  "\"total_size\":8\x7d,\"completed_ranges\":[[0,3]],\"expected_hashes\":[]," ++
  "\"created_at\":\"0\",\"updated_at\":\"0\"\x7d"

/-- A Durable store, with the JSON library at that checkpoint. -/
def durableStore : StoreConfig where
  serde :=
    { toText := fun cp => if cp = halfDone then .ok halfDoneText else .error "not used"
      fromText := fun json => if json = halfDoneText then .ok halfDone else .error "not used"
      utf8Error := fun _ => "invalid utf-8 sequence"
      roundTrip := by
        intro cp json h
        split_ifs at h with hcp
        rw [if_pos (Except.ok.inj h).symm, hcp] }
  durability := .durable
  dir := "/downloads"
  maxSerializedBytes := none

/-- A whole save, and a crash that takes back what it can. -/
def savedThenCrashed : List StoreEvent :=
  StoreEvent.save halfDone :: List.replicate 7 (.saveStep 0 none) ++
    [StoreEvent.crash (fun _ => 1) (fun _ => .empty) 8]

/-- After the crash the saved checkpoint is loaded. -/
theorem saves_crash_atomic_saved :
    ∃ s cp, runEvents (storeStep durableStore) (storeInit 7) savedThenCrashed = some s ∧
      durableStore.load s.disk s.disk "job" = .ok (some cp) := by
  obtain ⟨s, hrun, r, hr, hp, hid, hnone⟩ : ∃ s,
      runEvents (storeStep durableStore) (storeInit 7) savedThenCrashed = some s ∧
      ∃ r, s.saves 0 = some r ∧ r.phase = .returned (.ok ()) ∧ r.checkpoint.jobId = "job" ∧
        ∀ j, s.deletes j = none := ⟨_, rfl, _, rfl, rfl, rfl, fun _ => rfl⟩
  have hreach : Reach (storeStep durableStore) validSaves (· = storeInit 7) s :=
    .of_run (.start rfl) (by decide) hrun
  obtain ⟨t, -, hkept⟩ := (saves_crash_atomic durableStore rfl 7 s s hreach hreach).2.1 0 r hr hp
  obtain ⟨k', r', t', -, -, -, -, hload⟩ := hkept (by
    rintro j t' ⟨d, hd, -⟩
    rw [hnone j] at hd
    cases hd)
  exact ⟨s, r'.checkpoint, hrun, hid ▸ hload⟩

/-- A delete runs between the rename of a save and its return. -/
def deletedBeforeReturn : List StoreEvent :=
  StoreEvent.save halfDone :: List.replicate 5 (.saveStep 0 none) ++
    [StoreEvent.delete "job", .unlink 1 none, .saveStep 0 none, .saveStep 0 none]

/-- The save returns Ok, no delete is started after that, and nothing is there
to load. -/
theorem overlapping_delete_wins :
    ¬ ∀ (cfg : StoreConfig) (pid : ℕ) (s : StoreState), cfg.durability = .durable →
      Reach (storeStep cfg) validSaves (· = storeInit pid) s →
      ∀ k r t, s.saves k = some r → r.phase = .returned (.ok ()) → r.returnedAt = some t →
        (∀ j d, s.deletes j = some d → d.jobId = r.checkpoint.jobId → d.startedAt < t) →
        ∃ k' r', s.saves k' = some r' ∧
          cfg.load s.disk s.disk r.checkpoint.jobId = .ok (some r'.checkpoint) := by
  intro h
  obtain ⟨s, hrun, r, d₁, hr, hp, hat, hid, hgone, hcalls, h₀, h₁, hstart⟩ : ∃ s,
      runEvents (storeStep durableStore) (storeInit 7) deletedBeforeReturn = some s ∧
      ∃ r d₁, s.saves 0 = some r ∧ r.phase = .returned (.ok ()) ∧ r.returnedAt = some 10 ∧
        r.checkpoint.jobId = "job" ∧ s.disk.entries (.sidecar "job") = none ∧ s.calls = 2 ∧
        s.deletes 0 = none ∧ s.deletes 1 = some d₁ ∧ d₁.startedAt = 7 :=
    ⟨_, rfl, _, _, rfl, rfl, rfl, rfl, rfl, rfl, rfl, rfl, rfl⟩
  have hreach : Reach (storeStep durableStore) validSaves (· = storeInit 7) s :=
    .of_run (.start rfl) (by decide) hrun
  have hsound := sound_of_reach rfl hreach
  have hstarted : ∀ j d, s.deletes j = some d → d.startedAt < 10 := by
    intro j d hd
    match j with
    | 0 => rw [h₀] at hd; cases hd
    | 1 => rw [← Option.some.inj (h₁.symm.trans hd), hstart]; decide
    | j + 2 =>
      rw [(hsound.calls.fresh (j + 2) (by omega)).2] at hd
      cases hd
  obtain ⟨k', r', -, hload⟩ :=
    h durableStore 7 s rfl hreach 0 r 10 hr hp hat fun j d hd _ => hstarted j d hd
  rw [hid, hsound.load_of_none hsound hgone] at hload
  cases hload

end StoreState

end KDown
