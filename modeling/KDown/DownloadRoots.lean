/-
KDown/DownloadRoots.lean

The configured download roots, the settings row that names the default, and
the jobs that refer to a root (app registry.rs, with job creation from
api/jobs.rs and retry from supervisor/mod.rs).

Every operation is a sequence of SQL statements, each atomic, and the
statements of any number of operations run in any order.  An operation in
flight is its next statement; the read of the record it returns in the end
changes nothing and is left out, and so are labels and times.

The default is stored twice, as a flag of a root and in the settings.  Only the
insertion of a root sets the flag and only disabling it clears it, while every
other operation writes the settings alone.  Creation and disabling each look at
what the other writes, and then write on the strength of what they saw.
-/
import KDown.Registry
import KDown.Runs

namespace KDown

/-! ### State -/

/-- The row of a root. -/
structure RootRecord where
  canonicalPath : String
  enabled : Bool
  isDefault : Bool
  deriving DecidableEq, Repr

/-- The next statement of an operation in flight. -/
inductive RootStatement
  /-- `add_root`: look the canonical path up. -/
  | selectPath (path : String) (makeDefault : Bool)
  | insertRoot (path : String) (makeDefault : Bool)
  /-- `set_default_root`: load the root. -/
  | loadDefault (root : ℕ)
  | writeDefault (root : ℕ)
  | writeEnabled (root : ℕ)
  /-- `disable_root`: count the jobs that are not terminal. -/
  | countJobs (root : ℕ)
  | writeDisabled (root : ℕ)
  | clearDefault (root : ℕ)
  /-- `update_settings`: load the root the new settings name. -/
  | loadSettingsRoot (root : Option ℕ)
  | writeSettings (root : Option ℕ)
  /-- `create_job`: load the root, which must be enabled. -/
  | loadEnabled (root : ℕ)
  | insertJob (root : ℕ)
  /-- `retry`: load the job, which must be terminal. -/
  | loadTerminal (job expected : ℕ)
  | setDesired (job expected : ℕ)
  /-- Mark the job queued, or active when it is launched. -/
  | revive (job : ℕ)
  deriving DecidableEq, Repr

/-- The tables, with the operations in flight. -/
structure RootStore where
  roots : SortedMap ℕ RootRecord
  /-- The default root of the settings row. -/
  defaultRootId : Option ℕ
  registry : Registry
  /-- The root each job refers to. -/
  jobRoot : SortedMap ℕ ℕ
  /-- The operations in flight, by number. -/
  calls : SortedMap ℕ RootStatement

namespace RootStore

/-- The root is flagged as the default. -/
def flagged (s : RootStore) (root : ℕ) : Bool := (s.roots.get? root).any (·.isDefault)

/-- The root is configured and enabled. -/
def isEnabled (s : RootStore) (root : ℕ) : Bool := (s.roots.get? root).any (·.enabled)

/-- The root is configured and disabled. -/
def isDisabled (s : RootStore) (root : ℕ) : Bool := (s.roots.get? root).any (!·.enabled)

/-- The job refers to the root and its status is not terminal. -/
def liveOn (s : RootStore) (root job : ℕ) : Bool :=
  s.jobRoot.get? job = some root && (s.registry.jobs.get? job).any (!·.status.isTerminal)

/-- Some job that is not terminal refers to the root. -/
def inUse (s : RootStore) (root : ℕ) : Bool := s.jobRoot.keys.any (s.liveOn root)

/-- The root with a canonical path. -/
def rootByPath (s : RootStore) (path : String) : Option ℕ :=
  (s.roots.entries.find? fun e => e.2.canonicalPath = path).map Prod.fst

/-! ### Statements -/

/-- The row of the root is changed, if there is one. -/
def setRoot (s : RootStore) (root : ℕ) (f : RootRecord → RootRecord) : RootStore :=
  match s.roots.get? root with
  | none => s
  | some record => { s with roots := s.roots.insert root (f record) }

/-- The statement, and the one that follows it.  `fresh` is the id of a record
it inserts, `queued` whether a retried job finds no free slot. -/
def execute (s : RootStore) (fresh : ℕ) (queued : Bool) :
    RootStatement → Option (RootStore × Option RootStatement)
  | .selectPath path makeDefault =>
      match s.rootByPath path with
      | some root => some (s, if makeDefault then some (.loadDefault root) else none)
      | none => some (s, some (.insertRoot path makeDefault))
  | .insertRoot path makeDefault =>
      if s.roots.contains fresh then none
      -- the path is unique
      else if (s.rootByPath path).isSome then some (s, none)
      else some ({ s with roots := s.roots.insert fresh ⟨path, true, makeDefault⟩ },
        if makeDefault then some (.loadDefault fresh) else none)
  | .loadDefault root =>
      some (s, if s.roots.contains root then some (.writeDefault root) else none)
  | .writeDefault root => some ({ s with defaultRootId := some root }, none)
  | .writeEnabled root => some (s.setRoot root fun r => { r with enabled := true }, none)
  | .countJobs root => some (s, if s.inUse root then none else some (.writeDisabled root))
  | .writeDisabled root =>
      some (s.setRoot root fun r => { r with enabled := false, isDefault := false },
        if s.roots.contains root then some (.clearDefault root) else none)
  | .clearDefault root =>
      some (if s.defaultRootId = some root then { s with defaultRootId := none } else s, none)
  | .loadSettingsRoot root =>
      some (s, if root.all s.roots.contains then some (.writeSettings root) else none)
  | .writeSettings root => some ({ s with defaultRootId := root }, none)
  | .loadEnabled root => some (s, if s.isEnabled root then some (.insertJob root) else none)
  | .insertJob root =>
      if s.registry.jobs.contains fresh || s.jobRoot.contains fresh then none
      else some ({ s with
        registry := s.registry.insertJob fresh
        jobRoot := s.jobRoot.insert fresh root }, none)
  | .loadTerminal job expected =>
      some (s, match s.registry.jobs.get? job with
        | some row => if row.status.isTerminal then some (.setDesired job expected) else none
        | none => none)
  | .setDesired job expected =>
      match s.registry.compareAndSetDesired job expected .running with
      | .error _ => some (s, none)
      | .ok registry => some ({ s with registry := registry }, some (.revive job))
  | .revive job =>
      match s.registry.markStatus job (if queued then .queued else .active) with
      | .error _ => some (s, none)
      | .ok registry => some ({ s with registry := registry }, none)

/-- The first statement of each operation. -/
def opens : RootStatement → Bool
  | .selectPath _ _ | .loadDefault _ | .writeEnabled _ | .countJobs _ | .loadSettingsRoot _
  | .loadEnabled _ | .loadTerminal _ _ => true
  | _ => false

end RootStore

/-- An operation begins or executes a statement, or a job reports a milestone. -/
inductive RootEvent
  /-- An operation begins. -/
  | invoke (i : ℕ) (statement : RootStatement)
  | execute (i fresh : ℕ) (queued : Bool)
  /-- A milestone of a job that is not terminal. -/
  | milestone (job : ℕ) (status : DurableJobStatus)
  deriving DecidableEq, Repr

namespace RootStore

/-- Put the next statement of an operation, or end it. -/
def setCall (calls : SortedMap ℕ RootStatement) (i : ℕ) :
    Option RootStatement → SortedMap ℕ RootStatement
  | some statement => calls.insert i statement
  | none => calls.erase i

theorem get?_setCall (calls : SortedMap ℕ RootStatement) (i : ℕ) (next : Option RootStatement)
    (j : ℕ) : (setCall calls i next).get? j = if j = i then next else calls.get? j := by
  cases next with
  | some statement => exact calls.get?_insert i j statement
  | none => exact calls.get?_erase i j

/-- One event. -/
def step (s : RootStore) : RootEvent → Option RootStore
  | .invoke i statement =>
      if (s.calls.get? i).isNone && opens statement then
        some { s with calls := setCall s.calls i (some statement) }
      else none
  | .execute i fresh queued =>
      match s.calls.get? i with
      | none => none
      | some statement =>
          (s.execute fresh queued statement).map fun result =>
            { result.1 with calls := setCall s.calls i result.2 }
  | .milestone job status =>
      match s.registry.jobs.get? job with
      | none => none
      | some row =>
          if row.status.isTerminal then none
          else some { s with registry := s.registry.bumpJobStatus job status }

/-- The store after the migrations. -/
def init : RootStore := ⟨.empty, none, ⟨.empty, []⟩, .empty, .empty⟩

/-- No operation is in flight. -/
def Quiescent (s : RootStore) : Prop := s.calls = .empty

/-! ### What a step does -/

variable {s s' : RootStore}

/-- What a step can do. -/
theorem step_cases {e : RootEvent} (h : s.step e = some s') :
    (∃ i statement, e = .invoke i statement ∧ s.calls.get? i = none ∧ opens statement = true ∧
      s' = { s with calls := setCall s.calls i (some statement) }) ∨
    (∃ i fresh queued statement s₁ next, e = .execute i fresh queued ∧
      s.calls.get? i = some statement ∧ s.execute fresh queued statement = some (s₁, next) ∧
      s' = { s₁ with calls := setCall s.calls i next }) ∨
    (∃ job status row, e = .milestone job status ∧ s.registry.jobs.get? job = some row ∧
      row.status.isTerminal = false ∧
      s' = { s with registry := s.registry.bumpJobStatus job status }) := by
  cases e with
  | invoke i statement =>
    simp only [step, Bool.and_eq_true] at h
    split_ifs at h with hi
    exact .inl ⟨i, statement, rfl, Option.isNone_iff_eq_none.mp hi.1, hi.2,
      (Option.some.inj h).symm⟩
  | execute i fresh queued =>
    simp only [step] at h
    rcases hi : s.calls.get? i with _ | statement <;> rw [hi] at h
    · cases h
    · obtain ⟨⟨s₁, next⟩, hexec, hs'⟩ := Option.map_eq_some_iff.mp h
      exact .inr (.inl ⟨i, fresh, queued, statement, s₁, next, rfl, hi, hexec, hs'.symm⟩)
  | milestone job status =>
    simp only [step] at h
    rcases hrow : s.registry.jobs.get? job with _ | row <;> rw [hrow] at h
    · cases h
    · simp only at h
      split_ifs at h with hterm
      exact .inr (.inr ⟨job, status, row, rfl, hrow, by simpa using hterm,
        (Option.some.inj h).symm⟩)

theorem flagged_insert (s : RootStore) (root : ℕ) (record : RootRecord) (r : ℕ) :
    { s with roots := s.roots.insert root record }.flagged r =
      if r = root then record.isDefault else s.flagged r := by
  unfold flagged
  rw [SortedMap.get?_insert]
  split_ifs <;> rfl

theorem isEnabled_insert (s : RootStore) (root : ℕ) (record : RootRecord) (r : ℕ) :
    { s with roots := s.roots.insert root record }.isEnabled r =
      if r = root then record.enabled else s.isEnabled r := by
  unfold isEnabled
  rw [SortedMap.get?_insert]
  split_ifs <;> rfl

/-! ### The default root -/

/-- No root is flagged as the default. -/
def noneFlagged (s : RootStore) : Bool := s.roots.values.all (!·.isDefault)

theorem flagged_eq_false (h : s.noneFlagged = true) (r : ℕ) : s.flagged r = false := by
  unfold flagged
  rcases hr : s.roots.get? r with _ | record
  · rfl
  · have hmem : record ∈ s.roots.values :=
      List.mem_map.mpr ⟨(r, record), SortedMap.mem_entries.mpr hr, rfl⟩
    have hall := List.all_eq_true.mp h record hmem
    simpa using hall

/-- A new root is flagged only while no other is, and the settings name only a
root that is flagged. -/
def namesDefault (s : RootStore) : RootEvent → Bool
  | .execute i _ _ =>
      match s.calls.get? i with
      | some (.insertRoot _ true) => s.noneFlagged
      | some (.writeDefault root) => s.flagged root
      | some (.writeSettings (some root)) => s.flagged root
      | _ => true
  | _ => true

/-- What holds at any time: a name in the settings that is not flagged is about
to be cleared. -/
structure Flags (s : RootStore) : Prop where
  unique : ∀ r r', s.flagged r = true → s.flagged r' = true → r = r'
  enabled : ∀ r, s.flagged r = true → s.isEnabled r = true
  named : ∀ r, s.defaultRootId = some r →
    s.flagged r = true ∨ ∃ i, s.calls.get? i = some (.clearDefault r)

/-- An operation that is not about to clear a name moves on. -/
theorem Flags.advance (h : Flags s) {i : ℕ} (hi : ∀ r, s.calls.get? i ≠ some (.clearDefault r))
    (next : Option RootStatement) : Flags { s with calls := setCall s.calls i next } where
  unique := h.unique
  enabled := h.enabled
  named r hr := by
    refine (h.named r hr).imp_right fun ⟨j, hj⟩ => ⟨j, ?_⟩
    have hne : j ≠ i := fun heq => hi r (heq ▸ hj)
    show (setCall s.calls i next).get? j = _
    rw [get?_setCall, if_neg hne]
    exact hj

/-- The record of a root is replaced, and its flag not raised. -/
theorem Flags.insertRoot (h : Flags s) (root : ℕ) (record : RootRecord)
    (hflag : record.isDefault = true → record.enabled = true ∧ ∀ r ≠ root, s.flagged r = false)
    (hnamed : s.defaultRootId = some root → record.isDefault = true ∨
      ∃ i, s.calls.get? i = some (.clearDefault root)) :
    Flags { s with roots := s.roots.insert root record } where
  unique r r' hr hr' := by
    rw [flagged_insert] at hr hr'
    split_ifs at hr hr' with hroot hroot' hroot'
    · rw [hroot, hroot']
    · rw [(hflag hr).2 r' hroot'] at hr'
      cases hr'
    · rw [(hflag hr').2 r hroot] at hr
      cases hr
    · exact h.unique r r' hr hr'
  enabled r hr := by
    rw [flagged_insert] at hr
    rw [isEnabled_insert]
    split_ifs at hr ⊢
    · exact (hflag hr).1
    · exact h.enabled r hr
  named r hr := by
    rw [flagged_insert]
    by_cases hroot : r = root
    · rw [if_pos hroot, hroot]
      exact hnamed (hroot ▸ hr)
    · rw [if_neg hroot]
      exact h.named r hr

/-- The settings come to name nothing, or a root that is flagged. -/
theorem Flags.name (h : Flags s) (root : Option ℕ)
    (hroot : ∀ r, root = some r → s.flagged r = true) :
    Flags { s with defaultRootId := root } where
  unique := h.unique
  enabled := h.enabled
  named r hr := .inl (hroot r hr)

/-- Whether it is flagged or not, a root can be enabled. -/
theorem Flags.enableRoot (h : Flags s) {root : ℕ} {record : RootRecord}
    (hroot : s.roots.get? root = some record) :
    Flags { s with roots := s.roots.insert root { record with enabled := true } } := by
  have hrecord : s.flagged root = record.isDefault := by
    rw [flagged, hroot]
    rfl
  refine h.insertRoot root { record with enabled := true } (fun hflag => ⟨rfl, fun r hne => ?_⟩)
    (fun hr => ?_)
  · rw [Bool.eq_false_iff]
    exact fun hr => hne (h.unique r root hr (hrecord.trans hflag))
  · refine (h.named root hr).imp_left fun hflag => ?_
    rw [← hrecord]
    exact hflag

/-- The name that was to be cleared is cleared, if the settings still hold it. -/
theorem Flags.clearDefault (h : Flags s) {i root : ℕ}
    (hi : s.calls.get? i = some (.clearDefault root)) :
    Flags { (if s.defaultRootId = some root then { s with defaultRootId := none } else s) with
      calls := setCall s.calls i none } := by
  refine ⟨?_, ?_, fun r hr => ?_⟩
  · split_ifs <;> exact h.unique
  · split_ifs <;> exact h.enabled
  · by_cases hdefault : s.defaultRootId = some root
    · rw [if_pos hdefault] at hr
      cases hr
    · rw [if_neg hdefault] at hr ⊢
      refine (h.named r hr).imp_right fun ⟨j, hj⟩ => ⟨j, ?_⟩
      have hne : j ≠ i := by
        rintro rfl
        rw [hi] at hj
        cases hj
        exact hdefault hr
      show (setCall s.calls i none).get? j = _
      rw [get?_setCall, if_neg hne]
      exact hj

/-- One statement after the other, of all operations. -/
theorem Flags.execute (h : Flags s) {i fresh : ℕ} {queued : Bool} {statement : RootStatement}
    {s₁ : RootStore} {next : Option RootStatement} (hi : s.calls.get? i = some statement)
    (hok : s.namesDefault (.execute i fresh queued) = true)
    (hexec : s.execute fresh queued statement = some (s₁, next)) :
    Flags { s₁ with calls := setCall s.calls i next } := by
  have hmove : (∀ r, statement ≠ .clearDefault r) → ∀ next,
      Flags { s with calls := setCall s.calls i next } :=
    fun hne next => h.advance (fun r hr => hne r (Option.some.inj (hi.symm.trans hr))) next
  simp only [namesDefault, hi] at hok
  cases statement with
  | selectPath path makeDefault =>
    simp only [RootStore.execute] at hexec
    split at hexec <;> cases hexec
    · exact hmove (fun _ hno => by cases hno) _
    · exact hmove (fun _ hno => by cases hno) _
  | insertRoot path makeDefault =>
    simp only [RootStore.execute] at hexec
    split_ifs at hexec with hfresh hpath hdefault <;> cases hexec
    · exact hmove (fun _ hno => by cases hno) _
    · rw [hdefault] at hok
      have hflags := hmove (fun _ hno => by cases hno) (some (.loadDefault fresh))
      refine { hflags.insertRoot fresh ⟨path, true, makeDefault⟩
        (fun _ => ⟨rfl, fun r _ => flagged_eq_false hok r⟩) ?_ with }
      exact fun _ => .inl hdefault
    · have hnone : s.roots.get? fresh = none := by simpa [SortedMap.contains] using hfresh
      have hflags := hmove (fun _ hno => by cases hno) none
      refine { hflags.insertRoot fresh ⟨path, true, makeDefault⟩
        (fun hno => absurd hno hdefault) (fun hr => ?_) with }
      -- a root that does not exist is not flagged, so its name is being cleared
      refine .inr ((hflags.named fresh hr).resolve_left ?_)
      show ¬ s.flagged fresh = true
      rw [flagged, hnone]
      exact fun hno => by cases hno
  | loadDefault root | countJobs root | loadSettingsRoot root | loadEnabled root =>
    cases hexec
    exact hmove (fun _ hno => by cases hno) _
  | writeDefault root =>
    cases hexec
    refine { (hmove (fun _ hno => by cases hno) none).name (some root) ?_ with }
    rintro r ⟨⟩
    exact hok
  | writeEnabled root =>
    cases hexec
    have hflags := hmove (fun _ hno => by cases hno) none
    rcases hroot : s.roots.get? root with _ | record <;> simp only [setRoot, hroot]
    · exact hflags
    · exact { hflags.enableRoot hroot with }
  | writeDisabled root =>
    cases hexec
    rcases hroot : s.roots.get? root with _ | record <;>
      simp only [setRoot, hroot, SortedMap.contains, Option.isSome_some, if_true]
    · exact hmove (fun _ hno => by cases hno) _
    -- the flag is taken, and clearing the name comes next
    have hflags := hmove (fun _ hno => by cases hno) (some (.clearDefault root))
    refine { hflags.insertRoot root { record with enabled := false, isDefault := false }
      (fun hno => by cases hno) (fun _ => .inr ⟨i, ?_⟩) with }
    exact (get?_setCall ..).trans (if_pos rfl)
  | clearDefault root =>
    cases hexec
    exact h.clearDefault hi
  | writeSettings root =>
    cases hexec
    refine { (hmove (fun _ hno => by cases hno) none).name root ?_ with }
    rintro r rfl
    exact hok
  | insertJob root =>
    simp only [RootStore.execute] at hexec
    split_ifs at hexec
    cases hexec
    exact { hmove (fun _ hno => by cases hno) none with }
  | loadTerminal job expected =>
    cases hexec
    exact hmove (fun _ hno => by cases hno) _
  | setDesired job expected =>
    simp only [RootStore.execute] at hexec
    split at hexec <;> cases hexec
    · exact hmove (fun _ hno => by cases hno) _
    · exact { hmove (fun _ hno => by cases hno) (some (.revive job)) with }
  | revive job =>
    simp only [RootStore.execute] at hexec
    split at hexec <;> cases hexec
    · exact hmove (fun _ hno => by cases hno) _
    · exact { hmove (fun _ hno => by cases hno) none with }

/-- **The invariant is kept** by every write that names a default it may name. -/
theorem Flags.step (h : Flags s) {e : RootEvent} (hok : s.namesDefault e = true)
    (hs : s.step e = some s') : Flags s' := by
  rcases step_cases hs with ⟨i, statement, rfl, hi, -, rfl⟩ |
    ⟨i, fresh, queued, statement, s₁, next, rfl, hi, hexec, rfl⟩ | ⟨job, status, row, rfl, -, -, rfl⟩
  · refine h.advance (fun r hr => ?_) _
    rw [hi] at hr
    cases hr
  · exact h.execute hi hok hexec
  · exact { h with }

theorem flags_init : Flags init where
  unique r r' hr := by cases hr
  enabled r hr := by cases hr
  named r hr := by cases hr

/-- The two records of the default agree, and a disabled root is in neither. -/
structure DefaultAgrees (s : RootStore) : Prop where
  unique : ∀ r r', s.flagged r = true → s.flagged r' = true → r = r'
  named : ∀ r, s.defaultRootId = some r → ∀ r', s.flagged r' = true ↔ r' = r
  disabled : ∀ r, s.isDisabled r = true → s.flagged r = false ∧ s.defaultRootId ≠ some r

/-- **The default root.**  In every run in which a root is added as the default
only while no root is flagged, and the settings come to name a root only while
it is flagged, the two records of the default agree whenever no operation is in
flight. -/
theorem default_root_consistency {s : RootStore}
    (h : Reach step (fun s e => s.namesDefault e = true) (· = init) s) (hquiet : s.Quiescent) :
    DefaultAgrees s := by
  have hflags : Flags s :=
    Reach.invariant (fun s₀ h₀ => h₀ ▸ flags_init) (fun s₁ e s₂ h₁ hok hs => h₁.step hok hs) h
  have hnamed : ∀ r, s.defaultRootId = some r → s.flagged r = true := by
    intro r hr
    refine (hflags.named r hr).resolve_right fun ⟨i, hi⟩ => ?_
    rw [hquiet] at hi
    cases hi
  have hdisabled : ∀ r, s.isDisabled r = true → s.flagged r = false := by
    intro r hr
    rw [Bool.eq_false_iff]
    intro hflag
    have hen := hflags.enabled r hflag
    unfold isDisabled at hr
    unfold isEnabled at hen
    rcases hroot : s.roots.get? r with _ | record <;> rw [hroot] at hr hen
    · cases hr
    · have hen' : record.enabled = true := hen
      have hr' : (!record.enabled) = true := hr
      rw [hen'] at hr'
      cases hr'
  refine ⟨hflags.unique, fun r hr r' => ?_, fun r hr => ⟨hdisabled r hr, fun hdefault => ?_⟩⟩
  · constructor
    · exact fun hr' => hflags.unique r' r hr' (hnamed r hr)
    · rintro rfl
      exact hnamed r' hr
  · have hflag := hnamed r hdefault
    rw [hdisabled r hr] at hflag
    cases hflag

/-- A root is added as the default. -/
def addDefault (path : String) (root : ℕ) : List RootEvent :=
  [.invoke 0 (.selectPath path true), .execute 0 root false, .execute 0 root false,
    .execute 0 root false, .execute 0 root false]

/-- The default root is disabled while another one is added as the default: the
flag goes over before the name does.  Meanwhile the settings are saved with the
old name and a job is created on a third root. -/
def defaultMoves : List RootEvent :=
  [.invoke 0 (.selectPath "/srv" true), .invoke 1 (.selectPath "/home" false),
    .execute 0 0 false, .execute 1 0 false, .execute 1 2 false, .execute 0 1 false,
    .execute 0 0 false, .invoke 1 (.loadSettingsRoot (some 1)), .execute 1 0 false,
    .execute 0 0 false, .execute 1 0 false, .invoke 0 (.countJobs 1),
    .invoke 1 (.selectPath "/data" true), .invoke 2 (.loadEnabled 2), .execute 0 0 false,
    .execute 1 0 false, .execute 0 0 false, .execute 2 0 false, .execute 1 3 false,
    .execute 2 7 false, .execute 1 0 false, .execute 1 0 false, .execute 0 0 false]

/-- The two records agree when all four operations are over. -/
theorem default_root_consistency_moves :
    ∃ s, runEvents step init defaultMoves = some s ∧ s.defaultRootId = some 3 ∧
      s.isDisabled 1 = true ∧ s.liveOn 2 7 = true ∧ DefaultAgrees s := by
  have hend : ((runEvents step init defaultMoves).map fun s =>
      (s.calls, s.defaultRootId, s.isDisabled 1, s.liveOn 2 7)) =
      some (.empty, some 3, true, true) := by decide
  obtain ⟨s, hrun, hs⟩ := Option.map_eq_some_iff.mp hend
  simp only [Prod.mk.injEq] at hs
  obtain ⟨hquiet, hdefault, hdisabled, hlive⟩ := hs
  have hreach : Reach step (fun s e => s.namesDefault e = true) (· = init) s :=
    .of_run (.start rfl) (by decide) hrun
  exact ⟨s, hrun, hdefault, hdisabled, hlive, default_root_consistency hreach hquiet⟩

/-- After a second root is added as the default both are flagged; and a root
that is disabled can be made the default. -/
theorem two_defaults_and_a_disabled_one :
    (∃ s, Reach step (fun _ _ => True) (· = init) s ∧ s.Quiescent ∧ s.flagged 1 = true ∧
      s.flagged 2 = true) ∧
    ∃ s, Reach step (fun _ _ => True) (· = init) s ∧ s.Quiescent ∧ s.isDisabled 1 = true ∧
      s.defaultRootId = some 1 := by
  constructor
  · have hend : ((runEvents step init (addDefault "/srv" 1 ++ addDefault "/home" 2)).map fun s =>
        (s.calls, s.flagged 1, s.flagged 2)) = some (.empty, true, true) := by decide
    obtain ⟨s, hrun, hs⟩ := Option.map_eq_some_iff.mp hend
    simp only [Prod.mk.injEq] at hs
    exact ⟨s, .of_run (.start rfl) runOk_true hrun, hs⟩
  · have hend : ((runEvents step init (addDefault "/srv" 1 ++
        [RootEvent.invoke 0 (.countJobs 1), .execute 0 0 false, .execute 0 0 false,
          .execute 0 0 false, .invoke 0 (.loadDefault 1), .execute 0 0 false,
          .execute 0 0 false])).map fun s =>
        (s.calls, s.isDisabled 1, s.defaultRootId)) = some (.empty, true, some 1) := by decide
    obtain ⟨s, hrun, hs⟩ := Option.map_eq_some_iff.mp hend
    simp only [Prod.mk.injEq] at hs
    exact ⟨s, .of_run (.start rfl) runOk_true hrun, hs⟩

end RootStore

end KDown
