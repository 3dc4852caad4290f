/-
KDown/FileStoreDelete.lean

Deleted checkpoints of the sidecar-file store (resume/checkpoint_store.rs).

A delete unlinks the sidecar and returns; unlike a save it does not sync the
directory.  Until some save does, a crash may bring the entry back.
`deletesSynced` is the condition under which none comes back, `Forgets` the
invariant that carries it: behind every entry that is older than a delete and
still possible there is a removal that was not synced.
-/
import KDown.FileStoreCrash

namespace KDown

open CrashDisk (SameEntry)

namespace DeleteRun

/-- If the delete removed an entry, the directory was synced after that. -/
def settled (syncedAt : ℕ) (d : DeleteRun) : Bool :=
  !d.removed || d.doneAt.all (· < syncedAt)

/-- Settled deletes have been synced since they removed something. -/
theorem settled_iff {syncedAt : ℕ} {d : DeleteRun} :
    d.settled syncedAt = true ↔ (d.removed = true → ∀ t, d.doneAt = some t → t < syncedAt) := by
  simp [settled, Option.all_eq_true, imp_iff_not_or]

end DeleteRun

namespace StoreState

variable {cfg : StoreConfig} {s s' : StoreState}

/-- When the machine crashes, the directory was synced since each removal of a
sidecar. -/
def deletesSynced (s : StoreState) : StoreEvent → Prop
  | .crash _ _ _ => ∀ j < s.calls, ∀ d ∈ s.deletes j, d.settled s.syncedAt = true
  | _ => True

instance decidableDeletesSynced (s : StoreState) : ∀ e, Decidable (deletesSynced s e)
  | .crash _ _ _ =>
      inferInstanceAs (Decidable (∀ j < s.calls, ∀ d ∈ s.deletes j, d.settled s.syncedAt = true))
  | .save _ | .saveStep _ _ | .delete _ | .unlink _ _ => .isTrue trivial

/-- Valid checkpoints are saved, and no crash follows a removal that was not
synced. -/
def syncedCrashes (s : StoreState) (e : StoreEvent) : Prop := validSaves s e ∧ deletesSynced s e

instance decidableSyncedCrashes (s : StoreState) (e : StoreEvent) :
    Decidable (syncedCrashes s e) :=
  inferInstanceAs (Decidable (validSaves s e ∧ deletesSynced s e))

/-! ### Removals that were not synced -/

/-- A delete removed the sidecar after the last sync of the directory. -/
def RemovedUnsynced (s : StoreState) (jobId : String) : Prop :=
  ∃ j t, s.Removed jobId j t ∧ s.syncedAt ≤ t

theorem RemovedUnsynced.mono {id : String} (h : s.RemovedUnsynced id) (hk : Keeps s s')
    (hsynced : s'.syncedAt = s.syncedAt) : s'.RemovedUnsynced id := by
  obtain ⟨j, t, hrem, hle⟩ := h
  exact ⟨j, t, hk.removed hrem, hsynced ▸ hle⟩

/-- The machine does not crash while there is one. -/
theorem RemovedUnsynced.not_crash (hcalls : Calls cfg s) {id : String}
    (h : s.RemovedUnsynced id) {pick : StoreEntry → ℕ} {torn : ℕ → ByteArray} {pid : ℕ} :
    ¬ deletesSynced s (.crash pick torn pid) := by
  intro hok
  obtain ⟨j, t, ⟨d, hd, -, hat, hrem⟩, hle⟩ := h
  have hj : j < s.calls := by
    by_contra hge
    rw [(hcalls.fresh j (Nat.le_of_not_lt hge)).2] at hd
    cases hd
  have hlt := DeleteRun.settled_iff.mp (hok j hj d hd) hrem t hat
  exact absurd hlt (Nat.not_lt_of_le hle)

/-- Save `k` renamed its file over the sidecar after `t`. -/
def RenamedSince (s : StoreState) (jobId : String) (t k : ℕ) : Prop :=
  ∃ t', s.Renamed jobId k t' ∧ t < t'

theorem RenamedSince.mono {id : String} {t k : ℕ} (h : s.RenamedSince id t k)
    (hk : Keeps s s') : s'.RenamedSince id t k := by
  obtain ⟨t', hren, hlt⟩ := h
  exact ⟨t', hk.renamed hren, hlt⟩

/-! ### What deletes leave behind -/

/-- After a delete the sidecar leads to newer files only, and it may lead to
older ones after a crash only if a removal was not synced. -/
structure Forgets (s : StoreState) : Prop where
  vanished : ∀ {id k}, s.disk.Possible (.sidecar id) (some k) →
    s.disk.entries (.sidecar id) = none → s.RemovedUnsynced id
  current : ∀ {id j k t}, s.Done id j t → s.disk.entries (.sidecar id) = some k →
    s.RenamedSince id t k
  possible : ∀ {id j k t}, s.Done id j t → s.disk.Possible (.sidecar id) (some k) →
    s.RenamedSince id t k ∨ s.RemovedUnsynced id

theorem forgets_init (pid : ℕ) : Forgets (storeInit pid) where
  vanished := fun h _ => by
    have hnone := CrashDisk.possible_empty.mp h
    cases hnone
  current := by rintro id j k t ⟨d, hd, -⟩; cases hd
  possible := by rintro id j k t ⟨d, hd, -⟩; cases hd

/-- A step that changes no sidecar and ends no delete. -/
theorem Forgets.quiet (h : Forgets s) (hk : Keeps s s')
    (hdone : ∀ {id j t}, s'.Done id j t → s.Done id j t)
    (hsame : ∀ id, SameEntry s.disk s'.disk (.sidecar id))
    (hsynced : s'.syncedAt = s.syncedAt) : Forgets s' := by
  refine ⟨fun hp hnone => ?_, fun hd hentry => ?_, fun hd hp => ?_⟩
  · rw [(hsame _).1] at hnone
    exact (h.vanished ((hsame _).possible_iff.mp hp) hnone).mono hk hsynced
  · rw [(hsame _).1] at hentry
    exact (h.current (hdone hd) hentry).mono hk
  · exact (h.possible (hdone hd) ((hsame _).possible_iff.mp hp)).imp
      (fun hr => hr.mono hk) (fun hu => hu.mono hk hsynced)

/-- What is renamed into place is newer than every delete. -/
theorem Forgets.renamed (h : Forgets s) (hs : Stamped s) (hk : Keeps s s') {id : String} {k : ℕ}
    (hdone : ∀ {id' j t}, s'.Done id' j t → s.Done id' j t)
    (hnew : s'.Renamed id k s.clock) (hentry : s'.disk.entries (.sidecar id) = some k)
    (hposs : ∀ {v}, s'.disk.Possible (.sidecar id) v →
      v = some k ∨ s.disk.Possible (.sidecar id) v)
    (hsame : ∀ id', id' ≠ id → SameEntry s.disk s'.disk (.sidecar id'))
    (hsynced : s'.syncedAt = s.syncedAt) : Forgets s' := by
  refine ⟨fun {id' k'} hp hnone => ?_, fun {id' j k' t} hd hsome => ?_,
    fun {id' j k' t} hd hp => ?_⟩
  · rcases eq_or_ne id' id with rfl | hne
    · rw [hentry] at hnone
      cases hnone
    · rw [(hsame _ hne).1] at hnone
      exact (h.vanished ((hsame _ hne).possible_iff.mp hp) hnone).mono hk hsynced
  · rcases eq_or_ne id' id with rfl | hne
    · obtain rfl : k = k' := Option.some.inj (hentry.symm.trans hsome)
      exact ⟨s.clock, hnew, hs.done (hdone hd)⟩
    · rw [(hsame _ hne).1] at hsome
      exact (h.current (hdone hd) hsome).mono hk
  · have hold : s.disk.Possible (.sidecar id') (some k') →
        s'.RenamedSince id' t k' ∨ s'.RemovedUnsynced id' := fun hp =>
      (h.possible (hdone hd) hp).imp (fun hr => hr.mono hk) (fun hu => hu.mono hk hsynced)
    rcases eq_or_ne id' id with rfl | hne
    · rcases hposs hp with heq | hp
      · obtain rfl : k' = k := Option.some.inj heq
        exact .inl ⟨s.clock, hnew, hs.done (hdone hd)⟩
      · exact hold hp
    · exact hold ((hsame _ hne).possible_iff.mp hp)

/-- What a delete removes stays possible, for want of a sync. -/
theorem Forgets.removed (h : Forgets s) (hs : Stamped s) (hk : Keeps s s') {id : String} {j : ℕ}
    (hdone : ∀ {id' j' t}, s'.Done id' j' t → s.Done id' j' t ∨ id' = id ∧ t = s.clock)
    (hrem : s'.Removed id j s.clock) (hdisk : s'.disk = s.disk.unlink (.sidecar id))
    (hsynced : s'.syncedAt = s.syncedAt) : Forgets s' := by
  have hunsynced : s'.RemovedUnsynced id := ⟨j, s.clock, hrem, hsynced ▸ hs.synced.le⟩
  have hsame : ∀ id', id' ≠ id → SameEntry s.disk s'.disk (.sidecar id') := fun id' hne =>
    hdisk ▸ CrashDisk.sameEntry_setEntry none (by simpa using hne)
  have hold : ∀ {id' j' t}, id' ≠ id → s'.Done id' j' t → s.Done id' j' t := fun hne hd =>
    (hdone hd).resolve_right fun heq => hne heq.1
  refine ⟨fun {id' k} hp hnone => ?_, fun {id' j' k t} hd hsome => ?_,
    fun {id' j' k t} hd hp => ?_⟩
  · rcases eq_or_ne id' id with rfl | hne
    · exact hunsynced
    · rw [(hsame _ hne).1] at hnone
      exact (h.vanished ((hsame _ hne).possible_iff.mp hp) hnone).mono hk hsynced
  · rcases eq_or_ne id' id with rfl | hne
    · rw [hdisk, CrashDisk.unlink, CrashDisk.entries_setEntry] at hsome
      cases hsome
    · rw [(hsame _ hne).1] at hsome
      exact (h.current (hold hne hd) hsome).mono hk
  · rcases eq_or_ne id' id with rfl | hne
    · exact .inr hunsynced
    · exact (h.possible (hold hne hd) ((hsame _ hne).possible_iff.mp hp)).imp
        (fun hr => hr.mono hk) (fun hu => hu.mono hk hsynced)

/-- A delete that finds nothing: what may come back was removed by another. -/
theorem Forgets.missing (h : Forgets s) (hk : Keeps s s') {id : String}
    (hdone : ∀ {id' j t}, s'.Done id' j t → s.Done id' j t ∨ id' = id ∧ t = s.clock)
    (hgone : s.disk.entries (.sidecar id) = none) (hdisk : s'.disk = s.disk)
    (hsynced : s'.syncedAt = s.syncedAt) : Forgets s' := by
  refine ⟨fun hp hnone => ?_, fun hd hsome => ?_, fun hd hp => ?_⟩
  · rw [hdisk] at hp hnone
    exact (h.vanished hp hnone).mono hk hsynced
  · rw [hdisk] at hsome
    rcases hdone hd with hd | ⟨rfl, -⟩
    · exact (h.current hd hsome).mono hk
    · rw [hgone] at hsome
      cases hsome
  · rw [hdisk] at hp
    rcases hdone hd with hd | ⟨rfl, -⟩
    · exact (h.possible hd hp).imp (fun hr => hr.mono hk) (fun hu => hu.mono hk hsynced)
    · exact .inr ((h.vanished hp hgone).mono hk hsynced)

/-- **What a delete has removed does not come back** over a crash that finds it
synced. -/
theorem Forgets.step {e : StoreEvent} (hcalls : Calls cfg s) (h : Forgets s) (hs : Stamped s)
    (hk : Keeps s s') (he : Effect s e s') (hok : deletesSynced s e) : Forgets s' := by
  cases he with
  | quiet hnew hsame hsynced => exact h.quiet hk hnew.done hsame hsynced
  | renamed id k _ _ _ hdone hnew hentry hposs hsame hsynced =>
    exact h.renamed hs hk hdone hnew hentry hposs hsame hsynced
  | synced _ _ _ hdone hdisk _ =>
    -- only the current entry is left
    refine ⟨fun hp hnone => ?_, fun hd hsome => ?_, fun hd hp => ?_⟩
    · rw [hdisk, CrashDisk.possible_syncDir] at hp
      rw [hdisk] at hnone
      exact absurd (hp.trans hnone) (by simp)
    · rw [hdisk] at hsome
      exact (h.current (hdone hd) hsome).mono hk
    · rw [hdisk, CrashDisk.possible_syncDir] at hp
      exact .inl ((h.current (hdone hd) hp.symm).mono hk)
  | removed id j _ hdone hrem hdisk hsynced => exact h.removed hs hk hdone hrem hdisk hsynced
  | missing id _ hdone hgone hdisk hsynced => exact h.missing hk hdone hgone hdisk hsynced
  | crashed he hnew _ hposs _ =>
    obtain ⟨pick, torn, pid, rfl⟩ := he
    -- an entry that comes back is newer than the delete
    have hback : ∀ {id j k t}, s'.Done id j t → s'.disk.Possible (.sidecar id) (some k) →
        s'.RenamedSince id t k := by
      intro id j k t hd hp
      rcases h.possible (hnew.done hd) (hposs hp).2 with hr | hu
      · exact hr.mono hk
      · exact absurd hok (hu.not_crash hcalls)
    refine ⟨fun hp hnone => ?_, fun hd hsome => ?_, fun hd hp => .inl (hback hd hp)⟩
    · exact absurd ((hposs hp).1.trans hnone) (by simp)
    · exact hback hd (hsome ▸ s'.disk.possible_entries _)

/-! ### Deletes that returned Ok -/

/-- A delete that returned Ok has removed the sidecar, or found it gone. -/
def Answered (s : StoreState) : Prop :=
  ∀ j d, s.deletes j = some d → d.phase = .returned (.ok ()) → d.doneAt.isSome = true

/-- A delete that answers `Ok` has removed the sidecar or found it gone. -/
theorem Answered.step (hdur : cfg.durability = .durable) (h : Answered s) {e : StoreEvent}
    (hs : storeStep cfg s e = some s') : Answered s' := by
  intro j d hd hp
  cases e with
  | save cp =>
    obtain ⟨r', hb⟩ := save_begun hs
    exact h j d (hb.deletes ▸ hd) hp
  | saveStep call fault =>
    obtain ⟨r, r', -, hm⟩ := save_step hdur hs
    exact h j d (hm.deletes ▸ hd) hp
  | delete jobId =>
    rw [← Option.some.inj hs] at hd
    simp only [StoreState.tick] at hd
    rcases eq_or_ne j s.calls with rfl | hne
    · rw [Function.update_self] at hd
      rw [← Option.some.inj hd] at hp
      cases hp
    · rw [Function.update_of_ne hne] at hd
      exact h j d hd hp
  | unlink call fault =>
    obtain ⟨d₀, d', -, hm⟩ := unlink_step hs
    rw [hm.deletes] at hd
    rcases eq_or_ne j call with rfl | hne
    · rw [Function.update_self] at hd
      obtain rfl : d' = d := Option.some.inj hd
      cases hm.effect with
      | failed _ _ hnot _ => exact absurd hp hnot
      | removed hat _ _ | missing hat _ _ _ => rw [hat]; rfl
    · rw [Function.update_of_ne hne] at hd
      exact h j d hd hp
  | crash pick torn pid =>
    rw [← Option.some.inj hs] at hd
    obtain ⟨d₀, hd₀, rfl⟩ := Option.map_eq_some_iff.mp hd
    rw [(killDelete_fields d₀).2.1]
    refine h j d₀ hd₀ ?_
    unfold killDelete at hp
    split at hp
    · exact hp
    · cases hp

/-! ### Deleted checkpoints stay deleted -/

/-- What holds in every state of a run without a crash after an unsynced
removal. -/
structure Settled (cfg : StoreConfig) (s : StoreState) : Prop where
  sound : Sound cfg s
  forgets : Forgets s
  answered : Answered s

/-- All of this holds in a run whose crashes find the removals synced. -/
theorem settled_of_reach (hdur : cfg.durability = .durable) {pid : ℕ}
    (h : Reach (storeStep cfg) syncedCrashes (· = storeInit pid) s) : Settled cfg s := by
  refine h.invariant ?_ fun s e s' hs hok hstep => ?_
  · rintro _ rfl
    exact ⟨sound_init cfg pid, forgets_init pid, by intro j d hd; cases hd⟩
  · obtain ⟨hk, he⟩ := storeStep_effect hdur hs.sound.calls hstep
    exact ⟨hs.sound.step hdur hok.1 hstep,
      hs.forgets.step hs.sound.calls hs.sound.stamped hk he hok.2, hs.answered.step hdur hstep⟩

/-- **Deleted checkpoints stay deleted**, in every run in which the directory is
synced between a removal and a crash: once a delete has returned Ok, a load
returns nothing, or a checkpoint that was renamed into place after the
removal. -/
theorem deleted_stays_deleted (cfg : StoreConfig) (hdur : cfg.durability = .durable) (pid : ℕ)
    (s₀ s : StoreState) (h₀ : Reach (storeStep cfg) syncedCrashes (· = storeInit pid) s₀)
    (h : Reach (storeStep cfg) syncedCrashes (· = storeInit pid) s) :
    ∀ j d, s.deletes j = some d → d.phase = .returned (.ok ()) →
      ∃ t, d.doneAt = some t ∧
        (cfg.load s₀.disk s.disk d.jobId = .ok none ∨
          ∃ k r t', s.saves k = some r ∧ r.checkpoint.jobId = d.jobId ∧
            r.renamedAt = some t' ∧ t < t' ∧
            cfg.load s₀.disk s.disk d.jobId = .ok (some r.checkpoint)) := by
  intro j d hd hp
  have hsettled₀ := settled_of_reach hdur h₀
  have hsettled := settled_of_reach hdur h
  obtain ⟨t, hat⟩ := Option.isSome_iff_exists.mp (hsettled.answered j d hd hp)
  refine ⟨t, hat, ?_⟩
  rcases hsettled₀.sound.load hsettled.sound d.jobId with
    ⟨-, hload⟩ | ⟨k, r, hentry, hr, hid, hload⟩
  · exact .inl hload
  · obtain ⟨t', ⟨r', hr', -, hat'⟩, hlt⟩ := hsettled.forgets.current ⟨d, hd, rfl, hat⟩ hentry
    obtain rfl : r = r' := Option.some.inj (hr.symm.trans hr')
    exact .inr ⟨k, r, t', hr, hid, hat', hlt, hload⟩

/-- A checkpoint is saved and deleted, and the next save syncs the directory
before the crash. -/
def deletedThenSynced : List StoreEvent :=
  StoreEvent.save halfDone :: List.replicate 7 (.saveStep 0 none) ++
    [StoreEvent.delete "job", .unlink 1 none, .save halfDone] ++
    List.replicate 7 (StoreEvent.saveStep 2 none) ++
    [StoreEvent.crash (fun _ => 1) (fun _ => .empty) 8]

/-- After a synced delete and a crash nothing is loaded. -/
theorem deleted_stays_deleted_synced :
    ∃ s d t, runEvents (storeStep durableStore) (storeInit 7) deletedThenSynced = some s ∧
      s.deletes 1 = some d ∧ d.doneAt = some t ∧
      (durableStore.load s.disk s.disk "job" = .ok none ∨
        ∃ k r t', s.saves k = some r ∧ r.checkpoint.jobId = "job" ∧ r.renamedAt = some t' ∧
          t < t' ∧ durableStore.load s.disk s.disk "job" = .ok (some r.checkpoint)) := by
  obtain ⟨s, hrun, d, hd, hp, hid⟩ : ∃ s,
      runEvents (storeStep durableStore) (storeInit 7) deletedThenSynced = some s ∧
      ∃ d, s.deletes 1 = some d ∧ d.phase = .returned (.ok ()) ∧ d.jobId = "job" :=
    ⟨_, rfl, _, rfl, rfl, rfl⟩
  have hreach : Reach (storeStep durableStore) syncedCrashes (· = storeInit 7) s :=
    .of_run (.start rfl) (by decide) hrun
  obtain ⟨t, hat, hload⟩ := deleted_stays_deleted durableStore rfl 7 s s hreach hreach 1 d hd hp
  exact ⟨s, d, t, hrun, hd, hat, hid ▸ hload⟩

/-- A checkpoint is saved and deleted, and the crash takes the removal back. -/
def deletedThenCrashed : List StoreEvent :=
  StoreEvent.save halfDone :: List.replicate 7 (.saveStep 0 none) ++
    [StoreEvent.delete "job", .unlink 1 none, .crash (fun _ => 1) (fun _ => .empty) 8]

/-- The deleted checkpoint is loaded. -/
theorem deleted_comes_back :
    ¬ ∀ (cfg : StoreConfig) (pid : ℕ) (s : StoreState), cfg.durability = .durable →
      Reach (storeStep cfg) validSaves (· = storeInit pid) s →
      ∀ j d t, s.deletes j = some d → d.phase = .returned (.ok ()) → d.doneAt = some t →
        cfg.load s.disk s.disk d.jobId = .ok none ∨
          ∃ k r t', s.saves k = some r ∧ r.checkpoint.jobId = d.jobId ∧
            r.renamedAt = some t' ∧ t < t' ∧
            cfg.load s.disk s.disk d.jobId = .ok (some r.checkpoint) := by
  intro h
  obtain ⟨s, hrun, d, r, hd, hp, hat, hid, hentry, hcalls, hr, hat', hnone⟩ : ∃ s,
      runEvents (storeStep durableStore) (storeInit 7) deletedThenCrashed = some s ∧
      ∃ d r, s.deletes 1 = some d ∧ d.phase = .returned (.ok ()) ∧ d.doneAt = some 10 ∧
        d.jobId = "job" ∧ s.disk.entries (.sidecar "job") = some 0 ∧ s.calls = 2 ∧
        s.saves 0 = some r ∧ r.renamedAt = some 6 ∧ s.saves 1 = none :=
    ⟨_, rfl, _, _, rfl, rfl, rfl, rfl, rfl, rfl, rfl, rfl, rfl⟩
  have hreach : Reach (storeStep durableStore) validSaves (· = storeInit 7) s :=
    .of_run (.start rfl) (by decide) hrun
  have hsound := sound_of_reach rfl hreach
  -- the only save was renamed into place before the delete
  rcases h durableStore 7 s rfl hreach 1 d 10 hd hp hat with
    hload | ⟨k, r', t', hr', -, ht', hlt, -⟩
  · rw [hid, hsound.load_of_some hsound hentry hr] at hload
    cases hload
  · match k with
    | 0 =>
      rw [← Option.some.inj (hr.symm.trans hr'), hat'] at ht'
      rw [← Option.some.inj ht'] at hlt
      exact absurd hlt (by decide)
    | 1 => rw [hnone] at hr'; cases hr'
    | k + 2 =>
      rw [(hsound.calls.fresh (k + 2) (by omega)).1] at hr'
      cases hr'

end StoreState

end KDown
